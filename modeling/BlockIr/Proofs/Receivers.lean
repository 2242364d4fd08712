import Mathlib.Data.Finset.Card
import Mathlib.Logic.Relation
import BlockIr.Proofs.Constant
import BlockIr.Proofs.Table

/-!
# Chains of receivers

The text of a known operand may need the text of another one: a bound function shows its
receiver. Where no bound function is its own receiver, directly or through others, every chain
of receivers ends, and it passes through every instruction at most once. The bound in
`Executable.operand` is then never met, and an operand is shown by its value and by the operands
its value names (`Executable.operand_eq`).

* `Executable.card_reach_lt`: a receiver leads to fewer instructions than what names it.
* `Executable.receiver_induction`: a property of operands may be proved receivers first.
* `Executable.operand_error`: why an operand has no text.
-/

namespace BlockIr.Executable

/-- The value stored under `a` names `b`. -/
def Receives (e : Executable) (a b : InstrId) : Prop :=
  ∃ i, e.instructions.find? a = some i ∧ b ∈ i.references

/-- No bound function is its own receiver, directly or through others. -/
def NoSelfReceiver (e : Executable) : Prop := ∀ id, ¬ Relation.TransGen e.Receives id id

open Classical in
/-- The stored instructions that receivers lead to, the first one included. -/
noncomputable def reach (e : Executable) (id : InstrId) : Finset InstrId :=
  e.instructions.keys.toFinset.filter (Relation.ReflTransGen e.Receives id)

variable {e : Executable}

theorem mem_reach {id key : InstrId} :
    key ∈ e.reach id ↔ key ∈ e.instructions.keys ∧ Relation.ReflTransGen e.Receives id key := by
  classical
  rw [reach, Finset.mem_filter, List.mem_toFinset]

theorem card_reach_le (id : InstrId) :
    (e.reach id).card ≤ e.instructions.entries.length := by
  classical
  calc (e.reach id).card
      ≤ e.instructions.keys.toFinset.card := Finset.card_le_card (Finset.filter_subset _ _)
    _ ≤ e.instructions.keys.length := List.toFinset_card_le _
    _ = e.instructions.entries.length := List.length_map _

/-- A receiver leads to fewer instructions than what names it. -/
theorem card_reach_lt (he : e.NoSelfReceiver) {a b : InstrId} (hab : e.Receives a b) :
    (e.reach b).card < (e.reach a).card := by
  apply Finset.card_lt_card
  rw [Finset.ssubset_iff_of_subset]
  · refine ⟨a, ?_, ?_⟩
    · obtain ⟨i, hi, -⟩ := hab
      exact mem_reach.mpr ⟨Table.mem_keys_of_mem (Table.find?_eq_some_iff.mp hi), .refl⟩
    · intro ha
      exact he a (Relation.TransGen.head' hab (mem_reach.mp ha).2)
  · intro key hkey
    rw [mem_reach] at hkey ⊢
    exact ⟨hkey.1, .head hab hkey.2⟩

/-- A property of operands may be proved receivers first. -/
theorem receiver_induction (he : e.NoSelfReceiver) {P : InstrId → Prop}
    (step : ∀ id, (∀ r, e.Receives id r → P r) → P id) (id : InstrId) : P id := by
  induction hn : (e.reach id).card using Nat.strong_induction_on generalizing id with
  | _ n ih =>
    subst hn
    exact step id fun r hr => ih _ (card_reach_lt he hr) r rfl

/-- If receivers always rank lower than what names them, none is its own. -/
theorem noSelfReceiver_of_rank (rank : InstrId → Nat)
    (h : ∀ entry ∈ e.instructions.entries, ∀ r ∈ entry.2.references, rank r < rank entry.1) :
    e.NoSelfReceiver := by
  have hstep {a b : InstrId} (hab : e.Receives a b) : rank b < rank a := by
    obtain ⟨i, hi, hb⟩ := hab
    exact h (a, i) (Table.find?_eq_some_iff.mp hi) b hb
  intro id hcycle
  have hchain {b : InstrId} (hb : Relation.TransGen e.Receives id b) : rank b < rank id := by
    induction hb with
    | single hb => exact hstep hb
    | tail _ hbc ih => exact (hstep hbc).trans ih
  exact absurd (hchain hcycle) (Nat.lt_irrefl _)

/-! ## The text of an operand -/

/-- Bounds beyond the chain of receivers give the same text. -/
theorem operandWithin_congr (he : e.NoSelfReceiver) {m n : Nat} {id : InstrId}
    (hm : (e.reach id).card < m) (hn : (e.reach id).card < n) :
    e.operandWithin m id = e.operandWithin n id := by
  induction m generalizing n id with
  | zero => omega
  | succ m ih =>
    obtain ⟨n, rfl⟩ := Nat.exists_eq_succ_of_ne_zero (show n ≠ 0 by omega)
    simp only [operandWithin, lookup]
    cases hi : e.instructions.find? id with
    | none => rfl
    | some i =>
      have hi' : i.constantText (e.operandWithin m) = i.constantText (e.operandWithin n) := by
        apply i.constantText_congr
        intro r hr
        have hlt := card_reach_lt he ⟨i, hi, hr⟩
        exact ih (by omega) (by omega)
      simp only [ok_bind, hi']

/-- Without a bound function that is its own receiver, an operand is shown by its value and by
the operands that its value names. -/
theorem operand_eq (he : e.NoSelfReceiver) (id : InstrId) :
    e.operand id = (do
      let i ← e.lookup id
      if i.isInlined then i.constantText e.operand else return DumpError.idText i.id) := by
  simp only [operand, operandWithin, lookup]
  cases hi : e.instructions.find? id with
  | none => rfl
  | some i =>
    have hi' : i.constantText (e.operandWithin e.instructions.entries.length) =
        i.constantText e.operand := by
      apply i.constantText_congr
      intro r hr
      have hlt := card_reach_lt he ⟨i, hi, hr⟩
      have hle := card_reach_le (e := e) id
      exact operandWithin_congr he (by omega) (by omega)
    simp only [ok_bind, hi']

/-- An operand has no text when it is absent, or when its value has none. -/
theorem operand_error (he : e.NoSelfReceiver) {id : InstrId} {p : DumpStop}
    (h : e.operand id = .error p) :
    (e.instructions.find? id = none ∧ p = .problem (.missingInstruction id)) ∨
      ∃ i, e.instructions.find? id = some i ∧ i.isInlined = true ∧
        i.constantText e.operand = .error p := by
  rw [operand_eq he, lookup] at h
  cases hi : e.instructions.find? id with
  | none =>
    rw [hi] at h
    cases h
    exact .inl ⟨rfl, rfl⟩
  | some i =>
    rw [hi] at h
    simp only [ok_bind] at h
    split at h
    · rename_i hinlined
      exact .inr ⟨i, rfl, hinlined, h⟩
    · cases h

end BlockIr.Executable
