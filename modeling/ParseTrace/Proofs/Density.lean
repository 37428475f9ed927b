import ParseTrace.Proofs.Registration

/-!
Symbol tables without gaps. The check goes along the symbols and compares each index with a
counter. As the indices ascend, that finds out whether the set of them is an initial segment of
the natural numbers; in what order they were registered, and for which kinds, does not show.
-/

namespace ParseTrace.SymbolTable

theorem eq_range_iff {ks : List Nat} (ascending : ks.Pairwise (· < ·)) :
    ks = List.range ks.length ↔ ∀ k, k ∈ ks ↔ k < ks.length := by
  constructor
  · intro same k
    rw [same, List.mem_range, List.length_range]
  · intro members
    -- both ascend, so it is enough that they have the same members
    have distinct : ks.Nodup := ascending.imp Nat.ne_of_lt
    have perm : ks.Perm (List.range ks.length) := by
      rw [List.perm_ext_iff_of_nodup distinct List.nodup_range]
      intro k
      rw [members, List.mem_range]
    exact perm.eq_of_pairwise' ascending List.pairwise_lt_range

theorem countsFrom_iff (n : Nat) (symbols : List Symbol) :
    countsFrom n symbols = true ↔
      symbols.map (·.index.toNat) = List.range' n symbols.length := by
  induction symbols generalizing n with
  | nil => simp [countsFrom]
  | cons s rest ih => simp [countsFrom, ih, List.range'_succ]

def indices (calls : List Registration) : Set Nat :=
  {k | ∃ s, Registered calls s ∧ s.index.toNat = k}

variable {t : SymbolTable} {calls : List Registration}

theorem Sound.ascending_toNat (h : t.Sound) :
    (t.symbols.map (·.index.toNat)).Pairwise (· < ·) :=
  List.pairwise_map.2 (h.ascending.imp UInt32.lt_iff_toNat_lt.1)

theorem Sound.isDense_iff (h : t.Sound) :
    t.isDense = true ↔
      ∀ k, k ∈ t.symbols.map (·.index.toNat) ↔ k < t.symbols.length := by
  have counted := eq_range_iff h.ascending_toNat
  rw [List.length_map] at counted
  rw [isDense, countsFrom_iff, ← List.range_eq_range', counted]

theorem mem_indices_iff {k : Nat} :
    k ∈ indices calls ↔ k ∈ (history calls).symbols.map (·.index.toNat) := by
  simp only [indices, Set.mem_ofPred_eq, List.mem_map, mem_history_iff]

theorem ncard_indices (calls : List Registration) :
    (indices calls).ncard = (history calls).symbols.length := by
  have distinct : ((history calls).symbols.map (·.index.toNat)).Nodup :=
    (sound_history calls).ascending_toNat.imp Nat.ne_of_lt
  have listed : indices calls = ((history calls).symbols.map (·.index.toNat)).toFinset := by
    ext k
    simp [mem_indices_iff]
  rw [listed, Set.ncard_coe_finset, List.toFinset_card_of_nodup distinct, List.length_map]

/-- After any registrations, in whatever order and with refused ones among them, a table is dense
exactly if the indices of what was registered are those below its length. So no two histories
that have registered the same indices differ in it. -/
theorem isDense_history (calls : List Registration) :
    ((history calls).isDense = true ↔
      indices calls = Set.Iio (history calls).symbols.length) ∧
    ∀ calls', indices calls' = indices calls →
      (history calls').isDense = (history calls).isDense := by
  have dense (calls : List Registration) : (history calls).isDense = true ↔
      indices calls = Set.Iio (history calls).symbols.length := by
    rw [(sound_history calls).isDense_iff, Set.ext_iff]
    simp only [mem_indices_iff, Set.mem_Iio]
  refine ⟨dense calls, fun calls' same => ?_⟩
  rw [Bool.eq_iff_iff, dense, dense, ← ncard_indices, ← ncard_indices, same]

theorem isDense_history_reordered :
    let calls : List Registration := [.terminal 0 "ID", .nonterminal 1 "expr"]
    let calls' : List Registration := [.terminal 1 "+", .terminal 1 "-", .nonterminal 0 "sum"]
    indices calls' = indices calls ∧ (history calls).isDense = true ∧
      (history calls').isDense = true := by
  intro calls calls'
  have listed : (history calls').symbols.map (·.index.toNat) =
      (history calls).symbols.map (·.index.toNat) := by decide +kernel
  have same : indices calls' = indices calls := by
    ext k
    rw [mem_indices_iff, mem_indices_iff, listed]
  have dense : (history calls).isDense = true := by decide +kernel
  exact ⟨same, dense, ((isDense_history calls).2 calls' same).trans dense⟩

end ParseTrace.SymbolTable
