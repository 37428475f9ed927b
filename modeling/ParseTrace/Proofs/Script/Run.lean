import ParseTrace.Proofs.Replay
import ParseTrace.Proofs.Script.Passes
import ParseTrace.Proofs.Sessions

/-!
The tree that a script builds: a builder's, so all of its arena is in post-order below the
root, and no node has more children than a rule can ask for.
-/

namespace ParseTrace

def Grammar.Bounded (g : Grammar) : Prop :=
  ∀ p ∈ g.productions, p.length < UInt64.size

theorem Grammar.Bounded.arity_lt {g : Grammar} (h : g.Bounded) {t : Tree} {events : List Event}
    (made : t.entries.map some = events.map (Event.slot? g)) :
    ∀ e ∈ t.entries, e.arity < UInt64.size := by
  intro e he
  have listed : some e ∈ events.map (Event.slot? g) := made ▸ List.mem_map_of_mem he
  obtain ⟨event, -, shown⟩ := List.mem_map.1 listed
  cases event with
  | shift token =>
    obtain rfl := Option.some.inj shown
    exact Nat.two_pow_pos 64
  | reduce rule =>
    obtain ⟨p, hp, rfl⟩ := Option.map_eq_some_iff.1 shown
    exact h p (Array.mem_of_getElem? hp)
  | accept => cases shown

theorem Tree.mem_entries_of_describe {t : Tree} {d : Description} (described : t.describe = some d)
    {e : Entry} (he : e ∈ d.entries) : e ∈ t.entries := by
  obtain ⟨r, -, rfl⟩ := Option.map_eq_some_iff.1 described
  obtain ⟨i, -, shown⟩ := List.mem_filterMap.1 he
  obtain ⟨n, hn, rfl⟩ := Option.map_eq_some_iff.1 shown
  exact List.mem_map_of_mem (Array.mem_toList_iff.2 (Array.mem_of_getElem? hn))

theorem exists_calls_of_replay {g : Grammar} {events : List Event} {b b' : Builder} {t : Tree}
    (done : replay g Builder.receiver events b = (.ok t, b')) :
    ∃ calls : List Call, (calls.foldl Builder.after b).accept = (.ok t, b') := by
  induction events generalizing b with
  | nil => cases done
  | cons e rest ih =>
    cases e with
    | shift token =>
      rw [replay] at done
      split at done
      · next b₁ called =>
        have next : b.after (.shift token) = b₁ := congrArg Prod.snd called
        obtain ⟨calls, accepted⟩ := ih done
        exact ⟨.shift token :: calls, by rwa [List.foldl_cons, next]⟩
      · cases done
    | reduce rule =>
      rw [replay] at done
      split at done
      · cases done
      · next p known =>
        split at done
        · next b₁ called =>
          have next : b.after (.reduce p) = b₁ := congrArg Prod.snd called
          obtain ⟨calls, accepted⟩ := ih done
          exact ⟨.reduce p :: calls, by rwa [List.foldl_cons, next]⟩
        · cases done
    | accept => exact ⟨[], done⟩

namespace Script

variable {script : Script} {s : Session} {t : Tree}

theorem exists_events_of_run (done : (script.run s).1 = .ok t) :
    ∃ g events b, script.grammar = .ok g ∧ resolveAll g script.events = .ok events ∧
      replay g Builder.receiver events { session := s } = (.ok t, b) := by
  unfold run at done
  split at done
  · cases done
  · next g declared =>
    split at done
    · cases done
    · next events resolved => exact ⟨g, events, _, declared, resolved, Prod.ext done rfl⟩

theorem bounded_of_grammar {g : Grammar} (declared : script.grammar = .ok g) : g.Bounded := by
  intro p hp
  obtain ⟨r, -, -, -, length⟩ := exists_rule_of_production declared hp
  exact length ▸ r.length.toNat_lt

/-- A run that ends in a tree is a replay under a grammar of sound declarations. -/
theorem exists_replay_of_run (done : (script.run s).1 = .ok t) :
    ∃ g events b, g.Bounded ∧
      replay g Builder.receiver events { session := s } = (.ok t, b) := by
  obtain ⟨g, events, b, declared, -, replayed⟩ := exists_events_of_run done
  exact ⟨g, events, b, bounded_of_grammar declared, replayed⟩

theorem exists_stacked_of_run (done : (script.run s).1 = .ok t) :
    ∃ root f s', t.root = some root ∧ t.Stacked [root] f ∧ Tree.Becomes ({}, s) (t, s') := by
  obtain ⟨g, events, b, -, replayed⟩ := exists_replay_of_run done
  obtain ⟨calls, accepted⟩ := exists_calls_of_replay replayed
  exact Tree.accept_run accepted

theorem arity_lt_of_run (done : (script.run s).1 = .ok t) :
    ∀ e ∈ t.entries, e.arity < UInt64.size := by
  obtain ⟨g, events, b, bounded, replayed⟩ := exists_replay_of_run done
  exact bounded.arity_lt ((Builder.Made.fresh s).replay replayed).1

end Script

end ParseTrace
