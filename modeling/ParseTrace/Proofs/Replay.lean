import ParseTrace.Proofs.Builder
import ParseTrace.Replay

/-!
A replay that ends in a tree has built exactly what its events say. Each shift and each
reduce before the first accept has one node, in the order of the events; that order is
the post-order of the tree, so the tokens are read off its leaves as they were shifted.
-/

namespace ParseTrace

def Entry.token? : Entry → Option Token
  | .token symbol name lexeme line => some ⟨symbol, name, lexeme, line⟩
  | .interior .. => none

namespace Event

def slot? (g : Grammar) : Event → Option Entry
  | .shift token => some (.token token.symbol token.name token.lexeme token.line)
  | .reduce rule => g.productions[rule]?.map fun p => .interior p.lhs p.lhsName p.length
  | .accept => none

def token? : Event → Option Token
  | .shift token => some token
  | .reduce _ | .accept => none

def isShift : Event → Bool
  | .shift _ => true
  | .reduce _ | .accept => false

def isReduce : Event → Bool
  | .reduce _ => true
  | .shift _ | .accept => false

def isAccept : Event → Bool
  | .accept => true
  | .shift _ | .reduce _ => false

def beforeAccept (events : List Event) : List Event :=
  events.takeWhile fun e => !e.isAccept

theorem slot?_bind_token? (g : Grammar) (e : Event) :
    (e.slot? g).bind Entry.token? = e.token? := by
  cases e with
  | shift token => rfl
  | reduce rule => cases h : g.productions[rule]? <;> simp [slot?, token?, Entry.token?, h]
  | accept => rfl

theorem isSome_token? (e : Event) : e.token?.isSome = e.isShift := by
  cases e <;> rfl

theorem countP_add_countP {events : List Event} (h : ∀ e ∈ events, e.isAccept = false) :
    events.countP isShift + events.countP isReduce = events.length := by
  induction events with
  | nil => rfl
  | cons e rest ih =>
    have others := ih fun e' he => h e' (List.mem_cons_of_mem _ he)
    have first := h e List.mem_cons_self
    cases e with
    | accept => cases first
    | shift token =>
      simp only [List.countP_cons, isShift, isReduce, List.length_cons]
      simp only [if_true, Bool.false_eq_true, if_false]
      omega
    | reduce rule =>
      simp only [List.countP_cons, isShift, isReduce, List.length_cons]
      simp only [if_true, Bool.false_eq_true, if_false]
      omega

end Event

theorem Node.isToken_eq (n : Node) : n.isToken = n.entry.token?.isSome := by
  unfold Node.isToken Node.entry
  cases n.payload <;> rfl

namespace Tree

variable {t : Tree} {f : Forest Nat}

theorem Unfolds.shownByLeaves (h : t.Unfolds f) :
    (f.map t.label).ShownByLeaves Entry.token? := by
  induction f with
  | nil => trivial
  | cons i below beside ih ih' =>
    obtain ⟨⟨n, hn, children⟩, hb, hr⟩ := h
    refine ⟨?_, ih hb, ih' hr⟩
    rw [label_eq hn]
    cases hp : n.payload with
    | token lexeme line =>
      left
      -- a token has no children, so nothing stands below it
      have leaf : below.roots = [] := by rw [← children, Node.children, hp]
      rw [Forest.eq_nil_of_roots leaf]
      rfl
    | interior children' =>
      right
      simp only [Node.entry, hp, Entry.token?]

theorem tokenCount_eq (t : Tree) : t.tokenCount = t.entries.countP (·.token?.isSome) := by
  rw [tokenCount, entries, List.countP_map, ← Array.countP_toList]
  exact List.countP_congr fun n _ => by rw [Node.isToken_eq, Function.comp_apply]

end Tree

namespace Tree.Stacked

variable {t : Tree} {f : Forest Nat} {root : Nat}

theorem tokens_preorder (h : t.Stacked [root] f) :
    ((t.preorderFrom root).filterMap fun i => t.nodes[i]?.map Node.entry).filterMap
      Entry.token? = t.entries.filterMap Entry.token? := by
  rw [h.preorderFrom_eq, h.unfolds.entries_preorder,
    Forest.filterMap_preorder_eq_postorder h.unfolds.shownByLeaves, h.postorder_labels]

theorem mem_preorderFrom (h : t.Stacked [root] f) {i : Nat} (hi : i < t.nodes.size) :
    i ∈ t.preorderFrom root := by
  exact h.preorderFrom_perm.mem_iff.2 (List.mem_range.2 hi)

end Tree.Stacked

structure Builder.Made (g : Grammar) (made : List Event) (b : Builder) : Prop where
  opened : ∃ f, b.Open f
  entries : b.tree.entries.map some = made.map (Event.slot? g)

namespace Builder.Made

variable {g : Grammar} {made : List Event} {b : Builder}

theorem fresh (s : Session) : Made g [] { session := s } where
  opened := ⟨_, open_fresh s⟩
  entries := rfl

theorem shift (h : b.Made g made) (token : Token) :
    (b.shift token).1 = .ok () ∧ (b.shift token).2.Made g (made ++ [.shift token]) := by
  obtain ⟨f, opened⟩ := h.opened
  refine ⟨by rw [opened.shift_eq token], ⟨_, opened.shift token⟩, ?_⟩
  rw [opened.entries_shift token, List.map_append, h.entries, List.map_append]
  rfl

theorem reduce (h : b.Made g made) {rule : Nat} {p : Production}
    (known : g.productions[rule]? = some p) (done : (b.reduce p).1 = .ok ()) :
    (b.reduce p).2.Made g (made ++ [.reduce rule]) := by
  obtain ⟨f, opened⟩ := h.opened
  have enough : p.length ≤ b.depth := by
    by_contra short
    rw [opened.reduce_underflow (Nat.lt_of_not_le short)] at done
    cases done
  obtain ⟨kept, taken, -, -, next⟩ := opened.reduce enough
  refine ⟨⟨_, next⟩, ?_⟩
  rw [opened.entries_reduce enough, List.map_append, h.entries, List.map_append]
  simp only [List.map_cons, List.map_nil, Event.slot?, known, Option.map_some]

theorem accept (h : b.Made g made) {t : Tree} {b' : Builder}
    (done : b.accept = (.ok t, b')) :
    t.entries.map some = made.map (Event.slot? g) ∧
      ∃ root f, t.root = some root ∧ t.Stacked [root] f := by
  obtain ⟨f, opened⟩ := h.opened
  obtain ⟨root, rfl, arena⟩ := opened.stacked_of_accept done
  exact ⟨h.entries, root, f, rfl, arena⟩

theorem replay (h : b.Made g made) {events : List Event} {t : Tree} {b' : Builder}
    (done : ParseTrace.replay g receiver events b = (.ok t, b')) :
    t.entries.map some = (made ++ Event.beforeAccept events).map (Event.slot? g) ∧
      ∃ root f, t.root = some root ∧ t.Stacked [root] f := by
  -- each shift and reduce adds its event to `made`; only an accept ends in a tree
  induction events generalizing b made with
  | nil => cases done
  | cons e rest ih =>
    cases e with
    | shift token =>
      obtain ⟨accepted, next⟩ := h.shift token
      have run : ParseTrace.replay g receiver (.shift token :: rest) b =
          ParseTrace.replay g receiver rest (b.shift token).2 := by
        rw [ParseTrace.replay]
        split
        · next eq => rw [show b.shift token = _ from eq]
        · next eq => rw [show b.shift token = _ from eq] at accepted; cases accepted
      rw [run] at done
      simpa [Event.beforeAccept, Event.isAccept] using ih next done
    | reduce rule =>
      rw [ParseTrace.replay] at done
      split at done
      · cases done
      · next p known =>
        have stored : g.productions[rule]? = some p := by
          unfold Grammar.production at known
          split at known
          · next found => cases known; exact found
          · cases known
        split at done
        · next b₁ eq =>
          have result : b.reduce p = (.ok (), b₁) := eq
          have next := h.reduce stored (by rw [result])
          rw [result] at next
          simpa [Event.beforeAccept, Event.isAccept] using ih next done
        · cases done
    | accept =>
      simpa [Event.beforeAccept, Event.isAccept] using h.accept done

end Builder.Made

/-- The nodes of a replayed tree are, slot by slot, the shifts and reduces before the
first accept. Their order is the post-order from the root, the leaves show the shifted
tokens from left to right, and nothing in the arena is out of the root's reach. -/
theorem replay_tree_faithful {g : Grammar} {s : Session} {events : List Event} {t : Tree}
    {b : Builder} (h : replay g Builder.receiver events { session := s } = (.ok t, b)) :
    t.entries.map some = (Event.beforeAccept events).map (Event.slot? g) ∧
    (∃ root f, t.root = some root ∧ f.roots = [root] ∧ t.Unfolds f ∧
      f.postorder = List.range t.nodes.size) ∧
    t.preorderNodes.filterMap (·.entry.token?) =
      (Event.beforeAccept events).filterMap Event.token? ∧
    (∀ i < t.nodes.size, i ∈ t.preorder) ∧
    t.tokenCount = (Event.beforeAccept events).countP Event.isShift ∧
    t.interiorCount = (Event.beforeAccept events).countP Event.isReduce := by
  obtain ⟨entries, root, f, hroot, arena⟩ := (Builder.Made.fresh s).replay h
  rw [List.nil_append] at entries
  have preorder : t.preorder = t.preorderFrom root := by rw [Tree.preorder, hroot]
  have tokens : t.entries.filterMap Entry.token? =
      (Event.beforeAccept events).filterMap Event.token? := by
    have through := congrArg (List.filterMap (Option.bind · Entry.token?)) entries
    simpa only [List.filterMap_map, Function.comp_def, Option.bind_some,
      Event.slot?_bind_token?] using through
  have shifts : t.tokenCount = (Event.beforeAccept events).countP Event.isShift := by
    have lengths := congrArg List.length tokens
    rw [List.length_filterMap_eq_countP, List.length_filterMap_eq_countP] at lengths
    rw [Tree.tokenCount_eq, lengths]
    exact List.countP_congr fun e _ => by rw [Event.isSome_token?]
  refine ⟨entries, ⟨root, f, hroot, arena.roots, arena.unfolds, arena.postorder⟩, ?_, ?_,
    shifts, ?_⟩
  · have leaves := arena.tokens_preorder
    rw [tokens] at leaves
    rw [← leaves, Tree.preorderNodes, preorder]
    simp only [List.filterMap_filterMap, Option.bind_map, Function.comp_def]
  · intro i hi
    rw [preorder]
    exact arena.mem_preorderFrom hi
  · have all : (Event.beforeAccept events).countP Event.isShift +
        (Event.beforeAccept events).countP Event.isReduce = t.nodes.size := by
      rw [Event.countP_add_countP, ← Tree.length_entries]
      · simpa using (congrArg List.length entries).symm
      · intro e he
        simpa using List.all_eq_true.1 List.all_takeWhile e he
    rw [Tree.interiorCount, shifts]
    omega

theorem replay_tree_faithful_epsilon :
    ∃ t b,
      replay { productions := #[⟨2, "pair", 3⟩, ⟨3, "opt", 0⟩] } Builder.receiver
        [.shift ⟨0, "ID", "a", 1⟩, .reduce 1, .shift ⟨0, "ID", "b", 2⟩, .reduce 0, .accept,
          .shift ⟨0, "ID", "c", 3⟩]
        { session := ⟨"in.php", 7⟩ } = (.ok t, b) ∧
      t.entries.map some = [some (.token 0 "ID" "a" 1), some (.interior 3 "opt" 0),
        some (.token 0 "ID" "b" 2), some (.interior 2 "pair" 3)] ∧
      t.preorderNodes.filterMap (·.entry.token?) = [⟨0, "ID", "a", 1⟩, ⟨0, "ID", "b", 2⟩] ∧
      t.tokenCount = 2 ∧ t.interiorCount = 2 := by
  refine ⟨_, _, rfl, ?_⟩
  have run : replay { productions := #[⟨2, "pair", 3⟩, ⟨3, "opt", 0⟩] } Builder.receiver
      [.shift ⟨0, "ID", "a", 1⟩, .reduce 1, .shift ⟨0, "ID", "b", 2⟩, .reduce 0, .accept,
        .shift ⟨0, "ID", "c", 3⟩]
      { session := ⟨"in.php", 7⟩ } = (.ok _, _) := rfl
  obtain ⟨entries, -, leaves, -, tokens, interiors⟩ := replay_tree_faithful run
  exact ⟨entries, leaves, tokens, interiors⟩

end ParseTrace
