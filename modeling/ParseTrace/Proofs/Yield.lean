import ParseTrace.Proofs.Recording
import ParseTrace.Proofs.Replay

/-!
What a run takes of its input. A token leaves the input only where it is shifted, so those
shifted and those left are always the whole input in its order. A builder keeps the shifted
ones as the leaves of its arena; a run that can accept only behind the last token therefore
ends in a tree over all of them.
-/

namespace ParseTrace

def Call.token? : Call → Option Token
  | .shift token => some token
  | .reduce _ | .accept | .error _ => none

theorem Tree.Stacked.tokens_preorderNodes {t : Tree} {f : Forest Nat} {root : Nat}
    (h : t.Stacked [root] f) (marked : t.root = some root) :
    t.preorderNodes.filterMap (·.entry.token?) = t.entries.filterMap Entry.token? := by
  rw [← h.tokens_preorder, preorderNodes, preorder, marked]
  simp only [List.filterMap_filterMap, Option.bind_map, Function.comp_def]

namespace Run

variable {σ α : Type} {g : Grammar} {t : Table} {file : String} {r : Receiver σ α} {run : Run σ}

theorem call?_bind_token? (g : Grammar) (t : Table) (file : String) (run : Run σ) :
    (run.call? g t file).bind Call.token? = (run.event? g t).bind Event.token? := by
  rw [call?, event?]
  cases t.action run.top (run.lookahead t) with
  | shift next => cases run.input <;> rfl
  | reduce rule =>
    simp only
    cases g.production rule with
    | error failure => rfl
    | ok p =>
      simp only
      split <;> rfl
  | accept => rfl
  | error => rfl

/-- What a step takes off the input is the token of the event that it reports. A step that
ends the run may have handed over its token too. -/
theorem Decides.input {event : Option Event} {outcome : Outcome σ α}
    (h : Decides g t file r run event outcome) :
    (event.bind Event.token?).toList <+: run.input ∧
      ∀ next, outcome = .running next →
        (event.bind Event.token?).toList ++ next.input = run.input := by
  cases h with
  | shift _ input _ =>
    refine ⟨⟨_, input.symm⟩, ?_⟩
    rintro next ⟨⟩
    exact input.symm
  | shiftRefused _ input _ => exact ⟨⟨_, input.symm⟩, nofun⟩
  | reduce _ _ _ _ _ =>
    refine ⟨List.nil_prefix, ?_⟩
    rintro next ⟨⟩
    rfl
  | _ => exact ⟨List.nil_prefix, nofun⟩

theorem tokens_record_isPrefix (g : Grammar) (t : Table) (file : String) (r : Receiver σ α)
    (steps : Nat) (run : Run σ) :
    (run.record g t file r steps).filterMap Event.token? <+: run.input := by
  induction steps generalizing run with
  | zero => exact List.nil_prefix
  | succ steps ih =>
    have first : (run.event? g t).toList.filterMap Event.token? =
        ((run.event? g t).bind Event.token?).toList := by
      cases run.event? g t with
      | none => rfl
      | some e => cases e <;> rfl
    obtain ⟨begins, goesOn⟩ := (step_decides g t file r run).input
    rw [record_succ, List.filterMap_append, first]
    cases outcome : run.step g t file r with
    | running next =>
      rw [← goesOn next outcome]
      exact List.prefix_append_right_inj _ |>.2 (ih next)
    | done result s => simpa using begins

theorem tokens_calls (g : Grammar) (t : Table) (file : String) (runs : List (Run σ)) :
    (runs.filterMap (call? g t file)).filterMap Call.token? =
      (runs.filterMap (event? g t)).filterMap Event.token? := by
  rw [List.filterMap_filterMap, List.filterMap_filterMap]
  congr 1
  funext run
  exact call?_bind_token? g t file run

structure Consumes (tokens : List Token) (run : Run Builder) : Prop where
  inStep : run.InStep 0
  leaves : run.receiver.tree.entries.filterMap Entry.token? ++ run.input = tokens

namespace Consumes

variable {tokens : List Token} {run next : Run Builder}

theorem start (s : Session) (tokens : List Token) :
    Consumes tokens { input := tokens, receiver := { session := s } } where
  inStep := .start (Builder.open_fresh s) tokens
  leaves := rfl

theorem step (h : run.Consumes tokens)
    (running : run.step g t file Builder.receiver = .running next) : next.Consumes tokens := by
  refine ⟨h.inStep.step running, ?_⟩
  have decides := step_decides g t file Builder.receiver run
  rw [running] at decides
  obtain ⟨f, opened⟩ := h.inStep.opened
  generalize run.event? g t = event at decides
  cases decides with
  | @shift top token rest s _ input called =>
    obtain rfl : (run.receiver.shift token).2 = s := congrArg Prod.snd called
    simp only [opened.entries_shift token, List.filterMap_append, List.append_assoc]
    rw [← h.leaves, input]
    rfl
  | @reduce rule top p s _ known enough called _ =>
    obtain rfl : (run.receiver.reduce p).2 = s := congrArg Prod.snd called
    have held : p.length ≤ run.receiver.depth := by
      rw [h.inStep.depth]
      omega
    simpa [opened.entries_reduce held, List.filterMap_cons, Entry.token?] using h.leaves

theorem input_nil (h : run.Consumes tokens) (plain : ∀ token ∈ tokens, token.symbol ≠ t.endSymbol)
    (atEnd : run.lookahead t = t.endSymbol) : run.input = [] := by
  cases input : run.input with
  | nil => rfl
  | cons token rest =>
    have given : token ∈ tokens := by
      rw [← h.leaves, input]
      exact List.mem_append_right _ List.mem_cons_self
    rw [lookahead, input] at atEnd
    exact absurd atEnd (plain token given)

theorem accept (h : run.Consumes tokens) (used : run.input = []) {tree : Tree}
    (accepted : run.receiver.accept.1 = .ok tree) :
    tree.preorderNodes.filterMap (·.entry.token?) = tokens := by
  obtain ⟨f, opened⟩ := h.inStep.opened
  obtain ⟨root, rfl, arena⟩ := opened.stacked_of_accept (Prod.ext accepted rfl)
  rw [arena.tokens_preorderNodes rfl, ← h.leaves, used, List.append_nil]
  rfl

theorem follow (h : run.Consumes tokens)
    (onEnd : ∀ state symbol, t.action state symbol = .accept → symbol = t.endSymbol)
    (plain : ∀ token ∈ tokens, token.symbol ≠ t.endSymbol) {steps : Nat} {tree : Tree}
    {b : Builder} (ended : run.follow g t file Builder.receiver steps = some (.ok tree, b)) :
    tree.preorderNodes.filterMap (·.entry.token?) = tokens := by
  induction steps generalizing run with
  | zero => cases ended
  | succ steps ih =>
    rw [Run.follow] at ended
    cases outcome : run.step g t file Builder.receiver with
    | running next =>
      rw [outcome] at ended
      exact ih (h.step outcome) ended
    | done result s =>
      rw [outcome] at ended
      cases ended
      have decides := step_decides g t file Builder.receiver run
      rw [outcome] at decides
      generalize run.event? g t = event at decides
      generalize ended : Except.ok tree = result at decides
      cases decides with
      | accept action => exact h.accept (h.input_nil plain (onEnd _ _ action)) ended.symm
      | _ => cases ended

end Consumes

end Run

/-- Where a table accepts at the end of the input only, and no token passes for that end, the
leaves of a parsed tree are the tokens, all of them and in their order. Under any table and for
any receiver the tokens handed over until a run returns are those that the input begins with. -/
theorem parseTree_yield (g : Grammar) (t : Table) (tokens : List Token) :
    ((∀ state symbol, t.action state symbol = .accept → symbol = t.endSymbol) →
      (∀ token ∈ tokens, token.symbol ≠ t.endSymbol) →
      ∀ (steps : Nat) (s : Session) (tree : Tree) (b : Builder),
        parseTree steps g t s tokens = some (.ok tree, b) →
        tree.preorderNodes.filterMap (·.entry.token?) = tokens) ∧
    ∀ {σ α : Type} (r : Receiver σ α) (steps : Nat) (file : String) (s s' : σ)
      (result : Except Failure α) (calls : Array Call),
      drive steps g t file (r.noting fun call _ => call) tokens (#[], s) =
        some (result, calls, s') →
      calls.toList.filterMap Call.token? <+: tokens := by
  constructor
  · intro onEnd plain steps s tree b parsed
    exact (Run.Consumes.start s tokens).follow onEnd plain parsed
  · intro σ α r steps file s s' result calls returned
    rw [drive_noting] at returned
    obtain ⟨_, -, noted⟩ := Option.map_eq_some_iff.1 returned
    obtain ⟨-, noted⟩ := Prod.mk.inj noted
    obtain ⟨rfl, -⟩ := Prod.mk.inj noted
    simp only [Option.map_id', Run.tokens_calls]
    exact Run.tokens_record_isPrefix g t file r steps ⟨[0], tokens, s⟩

theorem parseTree_yield_pair :
    let g : Grammar := { productions := #[⟨2, "E", 1⟩, ⟨3, "pair", 2⟩] }
    let t : Table :=
      { action := fun state symbol =>
          if symbol = 9 ∧ state = 5 then .accept
          else if state = 4 then .reduce 1
          else if state = 1 ∨ state = 3 then .reduce 0
          else .shift (state + 1)
        goto := fun state symbol => some (if symbol = 3 then 5 else state + 2)
        endSymbol := 9 }
    ∃ tree b,
      parseTree 6 g t ⟨"in.php", 7⟩ [⟨0, "ID", "a", 1⟩, ⟨0, "ID", "b", 2⟩] = some (.ok tree, b) ∧
      tree.preorderNodes.filterMap (·.entry.token?) = [⟨0, "ID", "a", 1⟩, ⟨0, "ID", "b", 2⟩] := by
  intro g t
  have onEnd : ∀ state symbol, t.action state symbol = .accept → symbol = t.endSymbol := by
    intro state symbol accepts
    simp only [t] at accepts
    split at accepts
    · next atEnd => exact atEnd.1
    · split at accepts
      · cases accepts
      · split at accepts <;> cases accepts
  have ends : (parseTree 6 g t ⟨"in.php", 7⟩
      [⟨0, "ID", "a", 1⟩, ⟨0, "ID", "b", 2⟩]).any (·.1.isOk) = true := by decide +kernel
  cases parsed : parseTree 6 g t ⟨"in.php", 7⟩ [⟨0, "ID", "a", 1⟩, ⟨0, "ID", "b", 2⟩] with
  | none => rw [parsed] at ends; cases ends
  | some outcome =>
    obtain ⟨failure | tree, b⟩ := outcome
    · rw [parsed] at ends
      cases ends
    · refine ⟨tree, b, rfl, ?_⟩
      exact (parseTree_yield g t _).1 onEnd (by simp [t]) 6 ⟨"in.php", 7⟩ tree b parsed

end ParseTrace
