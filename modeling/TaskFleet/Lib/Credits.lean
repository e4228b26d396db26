import Mathlib.Data.Finset.Card

/-!
# Keyed and counted credits

One side hands pieces of work to the other and keeps a credit for each. A
*keyed* credit has the name of its piece. A *counted* one has not: it stands
for one of the executions the other side declared when it connected. A
message that gives a credit back takes the keyed one of its name if there is
one, and some counted one otherwise, so it can take a unit that stands for
something else.

* **`Covered`** — each piece that is out, and each declared execution that was
  not reported, has a credit to itself: nobody is over-committed.
* **`Backed`** — each credit is backed by something that will still give it
  back: no credit leaks.

For either, `release` says which messages keep it.
-/

namespace TaskFleet

/-- The credits of one side, and what they stand for. -/
structure Books (κ ε : Type) where
  keyed : Finset κ
  counted : ℕ
  /-- The pieces that are out by name. -/
  demand : Finset κ
  /-- The declared executions that were not reported. -/
  awaited : Finset ε

namespace Books

variable {κ ε : Type}

/-- All credits that are in use. -/
def total (b : Books κ ε) : ℕ := b.counted + b.keyed.card

/-- Each credit is backed: a keyed one by something that carries its name, the
counted ones by that many declared executions that will report. -/
structure Backed (b : Books κ ε) (carried : κ → Prop) (live : ε → Prop) : Prop where
  keyed : ∀ k ∈ b.keyed, carried k
  counted : ∃ backing ⊆ b.awaited, (∀ e ∈ backing, live e) ∧ b.counted ≤ backing.card

variable [DecidableEq κ] [DecidableEq ε]

/-- Give a credit back under a name. -/
def release (b : Books κ ε) (k : κ) : Books κ ε :=
  if k ∈ b.keyed then { b with keyed := b.keyed.erase k } else { b with counted := b.counted - 1 }

/-- What is out has changed to `demand` and `awaited`. -/
def settle (b : Books κ ε) (demand : Finset κ) (awaited : Finset ε) : Books κ ε :=
  { b with demand := demand, awaited := awaited }

omit [DecidableEq ε] in
/-- Giving a credit back and noting what is out commute. -/
theorem release_settle (b : Books κ ε) (k : κ) (demand : Finset κ) (awaited : Finset ε) :
    (b.settle demand awaited).release k = (b.release k).settle demand awaited := by
  by_cases hk : k ∈ b.keyed
  · rw [release, release, if_pos hk, if_pos (show k ∈ (b.settle demand awaited).keyed from hk)]
    rfl
  · rw [release, release, if_neg hk, if_neg (show k ∉ (b.settle demand awaited).keyed from hk)]
    rfl

/-- Everything that is out has a credit to itself. -/
def Covered (b : Books κ ε) : Prop := b.awaited.card + (b.demand \ b.keyed).card ≤ b.counted

variable {b b' : Books κ ε}

/-! ## Nobody is over-committed -/

omit [DecidableEq ε] in
/-- What is out and without a key decides. -/
theorem Covered.of_sdiff_subset (h : b.Covered) (hcounted : b'.counted = b.counted)
    (hawaited : b'.awaited ⊆ b.awaited) (hdemand : b'.demand \ b'.keyed ⊆ b.demand \ b.keyed) :
    b'.Covered := by
  have h₁ := Finset.card_le_card hawaited
  have h₂ := Finset.card_le_card hdemand
  simp only [Covered] at h ⊢
  omega

omit [DecidableEq ε] in
/-- Less may be out. -/
theorem Covered.mono (h : b.Covered) (hkeyed : b'.keyed = b.keyed)
    (hcounted : b'.counted = b.counted)
    (hawaited : b'.awaited ⊆ b.awaited) (hdemand : b'.demand ⊆ b.demand) : b'.Covered :=
  h.of_sdiff_subset hcounted hawaited (hkeyed ▸ Finset.sdiff_subset_sdiff hdemand (le_refl _))

omit [DecidableEq ε] in
/-- A piece goes out with a key of its own. -/
theorem Covered.grant (h : b.Covered) {k : κ} (hkeyed : b'.keyed = insert k b.keyed)
    (hcounted : b'.counted = b.counted) (hawaited : b'.awaited = b.awaited)
    (hdemand : b'.demand ⊆ insert k b.demand) : b'.Covered := by
  refine h.of_sdiff_subset hcounted hawaited.le fun x hx => ?_
  rw [Finset.mem_sdiff, hkeyed, Finset.mem_insert, not_or] at hx
  obtain ⟨hx, hne, hnew⟩ := hx
  exact Finset.mem_sdiff.mpr ⟨(Finset.mem_insert.mp (hdemand hx)).resolve_left hne, hnew⟩

omit [DecidableEq ε] in
/-- **When a credit may be given back.** A declared execution that is over pays
for it. Otherwise nothing of the name may stay out, and there must be a key of
the name, or an unkeyed piece of the name that is over. -/
theorem Covered.release (h : b.Covered) {k : κ} {demand : Finset κ} {awaited : Finset ε}
    (hdemand : demand ⊆ b.demand) (hawaited : awaited ⊆ b.awaited)
    (hsound : awaited ⊂ b.awaited ∨ k ∉ demand ∧ (k ∈ b.keyed ∨ k ∈ b.demand ∨ b.counted = 0)) :
    ((b.release k).settle demand awaited).Covered := by
  have hcover : b.awaited.card + (b.demand \ b.keyed).card ≤ b.counted := h
  have hunkeyed : (demand \ b.keyed).card ≤ (b.demand \ b.keyed).card :=
    Finset.card_le_card (Finset.sdiff_subset_sdiff hdemand (le_refl _))
  have hle := Finset.card_le_card hawaited
  by_cases hk : k ∈ b.keyed
  · -- the key of the name is taken
    show awaited.card + (demand \ (b.release k).keyed).card ≤ (b.release k).counted
    rw [Books.release, if_pos hk]
    rcases hsound with hover | ⟨hout, -⟩
    · have hone := Finset.card_lt_card hover
      have hsplit : demand \ b.keyed.erase k ⊆ insert k (demand \ b.keyed) := by
        intro x hx
        simp only [Finset.mem_sdiff, Finset.mem_erase, not_and, Finset.mem_insert] at hx ⊢
        tauto
      have hle' := (Finset.card_le_card hsplit).trans (Finset.card_insert_le _ _)
      show awaited.card + (demand \ b.keyed.erase k).card ≤ b.counted
      omega
    · have hsame : demand \ b.keyed.erase k ⊆ demand \ b.keyed := by
        intro x hx
        have hne : x ≠ k := fun hxk => hout (hxk ▸ (Finset.mem_sdiff.mp hx).1)
        simp only [Finset.mem_sdiff, Finset.mem_erase, not_and] at hx ⊢
        tauto
      have hle' := Finset.card_le_card hsame
      show awaited.card + (demand \ b.keyed.erase k).card ≤ b.counted
      omega
  · -- a counted unit is taken
    show awaited.card + (demand \ (b.release k).keyed).card ≤ (b.release k).counted
    rw [Books.release, if_neg hk]
    show awaited.card + (demand \ b.keyed).card ≤ b.counted - 1
    rcases hsound with hover | ⟨hout, hkeyed | hpiece | hzero⟩
    · have hone := Finset.card_lt_card hover
      omega
    · exact absurd hkeyed hk
    · have hmem : k ∈ b.demand \ b.keyed := Finset.mem_sdiff.mpr ⟨hpiece, hk⟩
      have hless : demand \ b.keyed ⊆ (b.demand \ b.keyed).erase k := by
        intro x hx
        have hne : x ≠ k := fun hxk => hout (hxk ▸ (Finset.mem_sdiff.mp hx).1)
        exact Finset.mem_erase.mpr ⟨hne, Finset.sdiff_subset_sdiff hdemand (le_refl _) hx⟩
      have hone := Finset.card_erase_add_one hmem
      have hle' := Finset.card_le_card hless
      omega
    · omega

omit [DecidableEq ε] in
/-- What is out is no more than the credits in use. -/
theorem Covered.card_le (h : b.Covered) {busy declared : Finset κ}
    (hbusy : busy ⊆ b.demand ∪ declared) (hdeclared : declared.card ≤ b.awaited.card) :
    busy.card ≤ b.total := by
  have hsplit : b.demand ∪ declared ⊆ (b.demand \ b.keyed ∪ b.keyed) ∪ declared := by
    refine Finset.union_subset_union_left ?_
    rw [Finset.sdiff_union_self_eq_union]
    exact Finset.subset_union_left
  have h₁ := Finset.card_le_card (hbusy.trans hsplit)
  have h₂ := Finset.card_union_le (b.demand \ b.keyed ∪ b.keyed) declared
  have h₃ := Finset.card_union_le (b.demand \ b.keyed) b.keyed
  simp only [Covered] at h
  simp only [total]
  omega

/-! ## No credit leaks -/

variable {carried carried' : κ → Prop} {live live' : ε → Prop}

omit [DecidableEq κ] [DecidableEq ε] in
/-- What backs a credit may change. -/
theorem Backed.mono (h : b.Backed carried live) (hcarried : ∀ k ∈ b.keyed, carried k → carried' k)
    (hlive : ∀ e ∈ b.awaited, live e → live' e) : b.Backed carried' live' := by
  obtain ⟨backing, hsub, hall, hle⟩ := h.counted
  exact ⟨fun k hk => hcarried k hk (h.keyed k hk), backing, hsub,
    fun e he => hlive e (hsub he) (hall e he), hle⟩

omit [DecidableEq ε] in
/-- A key may be added for what is on its way. -/
theorem Backed.grant (h : b.Backed carried live) {k : κ} {demand : Finset κ} (hk : carried k) :
    ({ b with keyed := insert k b.keyed, demand := demand } : Books κ ε).Backed carried live := by
  refine ⟨fun k' hk' => ?_, h.counted⟩
  rcases Finset.mem_insert.mp hk' with rfl | hk'
  · exact hk
  · exact h.keyed k' hk'

/-- **A report that gives a credit back** leaves the rest backed, if a declared
execution takes a counted unit with it. -/
theorem Backed.release (h : b.Backed carried live) {k : κ} {e : ε} {demand : Finset κ}
    (hcounted : e ∈ b.awaited → k ∉ b.keyed) (hcarried : ∀ k' ≠ k, carried k' → carried' k')
    (hlive : ∀ e' ≠ e, live e' → live' e') :
    ((b.release k).settle demand (b.awaited.erase e)).Backed carried' live' := by
  obtain ⟨backing, hsub, hall, hle⟩ := h.counted
  have hsub' : backing.erase e ⊆ b.awaited.erase e := Finset.erase_subset_erase e hsub
  have hlive' : ∀ e' ∈ backing.erase e, live' e' := fun e' he' =>
    hlive e' (Finset.ne_of_mem_erase he') (hall e' (Finset.mem_of_mem_erase he'))
  by_cases hk : k ∈ b.keyed
  · have hnot : e ∉ backing := fun he => hcounted (hsub he) hk
    have hle' : b.counted ≤ (backing.erase e).card := by rwa [Finset.erase_eq_of_notMem hnot]
    rw [Books.release, if_pos hk]
    refine ⟨fun k' hk' => ?_, backing.erase e, hsub', hlive', hle'⟩
    exact hcarried k' (Finset.ne_of_mem_erase hk') (h.keyed k' (Finset.mem_of_mem_erase hk'))
  · have hle' : b.counted - 1 ≤ (backing.erase e).card :=
      (Nat.sub_le_sub_right hle 1).trans Finset.pred_card_le_card_erase
    rw [Books.release, if_neg hk]
    refine ⟨fun k' hk' => ?_, backing.erase e, hsub', hlive', hle'⟩
    exact hcarried k' (fun hkk => hk (hkk ▸ hk')) (h.keyed k' hk')

omit [DecidableEq ε] in
/-- A refusal gives its credit back; no execution reports with it. -/
theorem Backed.refuse (h : b.Backed carried live) {k : κ} {demand : Finset κ}
    (hcarried : ∀ k' ≠ k, carried k' → carried' k') (hlive : ∀ e, live e → live' e) :
    ((b.release k).settle demand b.awaited).Backed carried' live' := by
  obtain ⟨backing, hsub, hall, hle⟩ := h.counted
  by_cases hk : k ∈ b.keyed
  · rw [Books.release, if_pos hk]
    refine ⟨fun k' hk' => ?_, backing, hsub, fun e he => hlive e (hall e he), hle⟩
    exact hcarried k' (Finset.ne_of_mem_erase hk') (h.keyed k' (Finset.mem_of_mem_erase hk'))
  · rw [Books.release, if_neg hk]
    refine ⟨fun k' hk' => ?_, backing, hsub, fun e he => hlive e (hall e he),
      (Nat.sub_le _ _).trans hle⟩
    exact hcarried k' (fun hkk => hk (hkk ▸ hk')) (h.keyed k' hk')

omit [DecidableEq κ] in
/-- A report that gives nothing back must not be awaited. -/
theorem Backed.ignore (h : b.Backed carried live) {e : ε} {demand : Finset κ}
    (hawaited : e ∉ b.awaited) (hcarried : ∀ k ∈ b.keyed, carried k → carried' k)
    (hlive : ∀ e' ≠ e, live e' → live' e') :
    (b.settle demand (b.awaited.erase e)).Backed carried' live' := by
  obtain ⟨backing, hsub, hall, hle⟩ := h.counted
  rw [Finset.erase_eq_of_notMem hawaited]
  refine ⟨fun k hk => hcarried k hk (h.keyed k hk), backing, hsub, fun e' he' => ?_, hle⟩
  exact hlive e' (fun hee => hawaited (hee ▸ hsub he')) (hall e' he')

omit [DecidableEq κ] [DecidableEq ε] in
/-- When nothing is on its way, every credit is back. -/
theorem Backed.total_eq_zero (h : b.Backed carried live) (hcarried : ∀ k, ¬ carried k)
    (hlive : ∀ e, ¬ live e) : b.total = 0 := by
  obtain ⟨backing, -, hall, hle⟩ := h.counted
  have hbacking : backing = ∅ := Finset.eq_empty_of_forall_notMem fun e he => hlive e (hall e he)
  have hkeyed : b.keyed = ∅ := Finset.eq_empty_of_forall_notMem fun k hk =>
      hcarried k (h.keyed k hk)
  rw [hbacking, Finset.card_empty] at hle
  rw [total, hkeyed, Finset.card_empty]
  omega

end Books

end TaskFleet
