import Mathlib
import QueryPlan.Estimate.Pass
import QueryPlan.Proofs.Program

/-!
# Page counts and charges

Larger pages hold more tuples, more buffers make fewer runs and merge more of them at a time, and a
join by blocks reads its right side less often. So no charge rises when pages or buffers are added,
as long as the numbers of tuples are not negative.

## Main definitions

* `Settings.Supports` : a join with a given code can be carried out.
* `chargeOfCode` : the cost of a join with a given code.

## Main results

* `ceilDiv_le_iff` : a quotient rounded up is the least integer not below it.
* `pagesOf_le`, `externalSortCost_nonneg`, `chargeOfCode_nonneg` : no charge is negative.
* `pagesOf_anti`, `mergePasses_anti`, `externalSortCost_anti`, `chargeOfCode_mono` : how charges
  depend on pages and buffers.
-/

namespace QueryPlan

/-! ### Quotients rounded up -/

section CeilDiv

variable {a a' b b' c : ℤ}

/-- A quotient rounded up is the least integer that is not below it. -/
theorem ceilDiv_le_iff (hb : 0 < b) : ceilDiv a b ≤ c ↔ a ≤ c * b := by
  unfold ceilDiv
  rw [Int.fdiv_eq_ediv_of_nonneg _ hb.le, neg_le, Int.le_ediv_iff_mul_le hb, neg_mul,
    neg_le_neg_iff]

theorem le_ceilDiv_mul (hb : 0 < b) : a ≤ ceilDiv a b * b := (ceilDiv_le_iff hb).1 le_rfl

theorem ceilDiv_nonneg (ha : 0 ≤ a) (hb : 0 < b) : 0 ≤ ceilDiv a b := by
  by_contra hneg
  have hle := le_ceilDiv_mul (a := a) hb
  nlinarith

/-- A smaller dividend and a larger divisor make a smaller quotient. -/
theorem ceilDiv_anti (ha : 0 ≤ a') (haa : a' ≤ a) (hb : 0 < b) (hbb : b ≤ b') :
    ceilDiv a' b' ≤ ceilDiv a b := by
  rw [ceilDiv_le_iff (hb.trans_le hbb)]
  have hnonneg := ceilDiv_nonneg (ha.trans haa) hb
  calc a' ≤ a := haa
    _ ≤ ceilDiv a b * b := le_ceilDiv_mul hb
    _ ≤ ceilDiv a b * b' := mul_le_mul_of_nonneg_left hbb hnonneg

theorem ceilDivChecked_of_ne (hb : b ≠ 0) : ceilDivChecked a b = .ok (ceilDiv a b) := if_neg hb

end CeilDiv

/-! ### Pages -/

section Pages

variable {pageSize pageSize' : ℕ} {tuples size pages : ℤ}

/-- Tuples of any size but zero take a number of pages. -/
theorem pagesOf_eq_ok_iff : pagesOf pageSize tuples size = .ok pages ↔
    size ≠ 0 ∧ ceilDiv tuples (max 1 (Int.fdiv pageSize size)) = pages := by
  unfold pagesOf pageCapacity
  by_cases hsize : size = 0
  · simp [hsize, bind, Except.bind]
  · have hcapacity : max 1 (Int.fdiv pageSize size) ≠ 0 := by omega
    simp [hsize, bind, Except.bind, ceilDivChecked_of_ne hcapacity]

/-- A larger page does not hold fewer tuples, whatever their size. -/
theorem pageCapacity_mono (hpage : pageSize ≤ pageSize') (size : ℤ) :
    max 1 (Int.fdiv pageSize size) ≤ max 1 (Int.fdiv pageSize' size) := by
  have hpage' : (pageSize : ℤ) ≤ pageSize' := by exact_mod_cast hpage
  obtain hsize | hsize := lt_or_ge 0 size
  · rw [Int.fdiv_eq_ediv_of_nonneg _ hsize.le, Int.fdiv_eq_ediv_of_nonneg _ hsize.le]
    exact max_le_max le_rfl (Int.ediv_le_ediv hsize hpage')
  · -- A size below zero leaves one tuple on a page, however large the page is.
    have hnonpos : Int.fdiv pageSize size ≤ 0 :=
      Int.fdiv_nonpos_of_nonneg_of_nonpos (Int.natCast_nonneg _) hsize
    omega

/-- A page holds at least one tuple. -/
theorem pagesOf_le (ht : 0 ≤ tuples) (h : pagesOf pageSize tuples size = .ok pages) :
    0 ≤ pages ∧ pages ≤ tuples := by
  obtain ⟨-, rfl⟩ := pagesOf_eq_ok_iff.1 h
  have hcapacity : 1 ≤ max 1 (Int.fdiv pageSize size) := le_max_left _ _
  refine ⟨ceilDiv_nonneg ht (by omega), (ceilDiv_le_iff (by omega)).2 ?_⟩
  exact le_mul_of_one_le_right ht hcapacity

/-- On larger pages the same tuples do not take more of them. -/
theorem pagesOf_anti (hpage : pageSize ≤ pageSize') (ht : 0 ≤ tuples)
    (h : pagesOf pageSize tuples size = .ok pages) :
    ∃ pages', pagesOf pageSize' tuples size = .ok pages' ∧ 0 ≤ pages' ∧ pages' ≤ pages := by
  obtain ⟨hsize, rfl⟩ := pagesOf_eq_ok_iff.1 h
  refine ⟨_, pagesOf_eq_ok_iff.2 ⟨hsize, rfl⟩, ceilDiv_nonneg ht (by omega), ?_⟩
  exact ceilDiv_anti ht le_rfl (by omega) (pageCapacity_mono hpage size)

end Pages

/-! ### Sorting -/

section Sorting

variable {fanIn fanIn' runs runs' : ℕ} {pages pages' buffers buffers' cost : ℤ}

theorem runsAfterMerge_le_iff {k : ℕ} (hfan : 0 < fanIn) :
    runsAfterMerge fanIn runs ≤ k ↔ runs ≤ k * fanIn := by
  unfold runsAfterMerge
  rw [Nat.div_le_iff_le_mul_add_pred hfan, Nat.mul_comm]
  omega

/-- Merging until one run is left takes as many passes as there are factors needed. -/
theorem mergePasses_le_iff (hfan : 2 ≤ fanIn) {k : ℕ} :
    mergePasses fanIn runs ≤ k ↔ runs ≤ fanIn ^ k := by
  induction k generalizing runs with
  | zero =>
    rw [mergePasses]
    split <;> simp <;> omega
  | succ k ih =>
    rw [mergePasses]
    split
    · rw [Nat.succ_le_succ_iff, ih, runsAfterMerge_le_iff (by omega), pow_succ]
    · have hpow : 0 < fanIn ^ (k + 1) := Nat.pow_pos (by omega)
      omega

/-- Fewer runs, merged more at a time, need no more passes. -/
theorem mergePasses_anti (hfan : 2 ≤ fanIn) (hfans : fanIn ≤ fanIn') (hruns : runs' ≤ runs) :
    mergePasses fanIn' runs' ≤ mergePasses fanIn runs := by
  rw [mergePasses_le_iff (hfan.trans hfans)]
  calc runs' ≤ runs := hruns
    _ ≤ fanIn ^ mergePasses fanIn runs := (mergePasses_le_iff hfan).1 le_rfl
    _ ≤ fanIn' ^ mergePasses fanIn runs := Nat.pow_le_pow_left hfans _

theorem mergePassesChecked_of_two_le {fanIn runs : ℤ} (hfan : 2 ≤ fanIn) :
    mergePassesChecked fanIn runs = .ok (mergePasses fanIn.toNat runs.toNat) := by
  unfold mergePassesChecked
  split_ifs with hruns
  · rw [mergePasses, dif_neg (by omega)]
  all_goals first | omega | rfl

/-- With enough buffers a merge sort ends, and what it costs. -/
theorem externalSortCost_of_minBuffers (hbuffers : minBuffers ≤ buffers) :
    externalSortCost pages buffers = .ok (2 * pages *
      (1 + mergePasses (buffers - 1).toNat (ceilDiv pages buffers).toNat)) := by
  have hthree : (3 : ℤ) ≤ buffers := hbuffers
  unfold externalSortCost
  have hfan : 2 ≤ buffers - 1 := by omega
  rw [ceilDivChecked_of_ne (by omega)]
  simp only [bind, Except.bind, mergePassesChecked_of_two_le hfan]
  rfl

/-- Sorting is not charged a negative cost. -/
theorem externalSortCost_nonneg (hbuffers : minBuffers ≤ buffers) (hpages : 0 ≤ pages)
    (h : externalSortCost pages buffers = .ok cost) : 0 ≤ cost := by
  rw [externalSortCost_of_minBuffers hbuffers] at h
  obtain rfl := Except.ok.inj h
  positivity

/-- Sorting fewer pages with more buffers costs no more. -/
theorem externalSortCost_anti (hbuffers : minBuffers ≤ buffers) (hle : buffers ≤ buffers')
    (hpages : 0 ≤ pages') (hpage : pages' ≤ pages) (h : externalSortCost pages buffers = .ok cost) :
    ∃ cost', externalSortCost pages' buffers' = .ok cost' ∧ cost' ≤ cost := by
  have hthree : (3 : ℤ) ≤ buffers := hbuffers
  rw [externalSortCost_of_minBuffers hbuffers] at h
  obtain rfl := Except.ok.inj h
  refine ⟨_, externalSortCost_of_minBuffers (hbuffers.trans hle), ?_⟩
  have hruns : ceilDiv pages' buffers' ≤ ceilDiv pages buffers :=
    ceilDiv_anti hpages hpage (by omega) hle
  have hpasses : mergePasses (buffers' - 1).toNat (ceilDiv pages' buffers').toNat ≤
      mergePasses (buffers - 1).toNat (ceilDiv pages buffers).toNat :=
    mergePasses_anti (by omega) (by omega) (by omega)
  have hpasses' : (mergePasses (buffers' - 1).toNat (ceilDiv pages' buffers').toNat : ℤ) ≤
      mergePasses (buffers - 1).toNat (ceilDiv pages buffers).toNat := by exact_mod_cast hpasses
  have hnonneg : 0 ≤ 2 * pages := by omega
  gcongr

end Sorting

/-! ### Joins -/

/-- A join with this code can be carried out: by a nested loop with any buffers, by blocks or by
sorting and merging with enough of them. -/
def Settings.Supports (settings : Settings) (code : ℤ) : Prop :=
  code = 0 ∨ (code = 1 ∨ code = 2) ∧ minBuffers ≤ settings.buffersPerJoin

instance (settings : Settings) (code : ℤ) : Decidable (settings.Supports code) :=
  inferInstanceAs (Decidable (_ ∨ _))

theorem Settings.Supports.mono {settings settings' : Settings} {code : ℤ}
    (h : settings.Supports code) (hle : settings.buffersPerJoin ≤ settings'.buffersPerJoin) :
    settings'.Supports code :=
  h.imp_right fun hblocks => ⟨hblocks.1, hblocks.2.trans hle⟩

/-- Any join but a nested loop that can be carried out has at least three buffers. -/
theorem Settings.Supports.three_le {settings : Settings} {code : ℤ} (h : settings.Supports code)
    (hcode : code ≠ 0) : 3 ≤ settings.buffersPerJoin :=
  (h.resolve_left hcode).2

/-- What a join with this code of `left` with `right` pages is charged: the page reads of a nested
loop, those of a loop over blocks, or nothing. -/
def chargeOfCode (code left right : ℤ) (buffers : ℕ) : ℤ :=
  if code = 0 then left * right
  else if code = 1 then left + ceilDiv left ((buffers : ℤ) - 2) * right
  else 0

/-- A join that can be carried out is not charged a negative cost. -/
theorem chargeOfCode_nonneg {settings : Settings} {code left right : ℤ}
    (hcode : settings.Supports code) (hl : 0 ≤ left) (hr : 0 ≤ right) :
    0 ≤ chargeOfCode code left right settings.buffersPerJoin := by
  unfold chargeOfCode
  split_ifs with h0 h1
  · exact mul_nonneg hl hr
  · have hthree := hcode.three_le h0
    have hblocks : 0 ≤ ceilDiv left ((settings.buffersPerJoin : ℤ) - 2) :=
      ceilDiv_nonneg hl (by omega)
    exact add_nonneg hl (mul_nonneg hblocks hr)
  · exact le_rfl

/-- Joining fewer pages with more buffers is not charged more. -/
theorem chargeOfCode_mono {settings : Settings} {code left left' right right' : ℤ} {buffers' : ℕ}
    (hcode : settings.Supports code) (hbuffers : settings.buffersPerJoin ≤ buffers')
    (hl : 0 ≤ left') (hr : 0 ≤ right') (hleft : left' ≤ left) (hright : right' ≤ right) :
    chargeOfCode code left' right' buffers' ≤
      chargeOfCode code left right settings.buffersPerJoin := by
  unfold chargeOfCode
  split_ifs with h0 h1
  · exact mul_le_mul hleft hright hr (hl.trans hleft)
  · have hthree := hcode.three_le h0
    have hblocks : ceilDiv left' ((buffers' : ℤ) - 2) ≤
        ceilDiv left ((settings.buffersPerJoin : ℤ) - 2) :=
      ceilDiv_anti hl hleft (by omega) (by omega)
    have hnonneg : 0 ≤ ceilDiv left ((settings.buffersPerJoin : ℤ) - 2) :=
      ceilDiv_nonneg (hl.trans hleft) (by omega)
    exact add_le_add hleft (mul_le_mul hblocks hright hr hnonneg)
  · exact le_rfl

end QueryPlan
