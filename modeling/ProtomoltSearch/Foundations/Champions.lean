import ProtomoltSearch.Foundations.Floors

/-!
# The best element of every group

A top-`k` search over groups ranks their champions, the best elements. Elements below a score that
`k` groups reach may be lost, although losing one can change which element is the champion of a
group that is out of the running (`topK_champions_append`).
-/

namespace ProtomoltSearch.TopK

open List

variable {α κ S : Type*} [DecidableEq κ] [LinearOrder S]

section

variable {key : α → κ} {score : α → S} {l : List α} {f : S}

/-- The groups with an element at or above a score. -/
def keysAbove (key : α → κ) (score : α → S) (l : List α) (f : S) : Finset κ :=
  ((l.filter fun x => f ≤ score x).map key).toFinset

lemma mem_keysAbove {g : κ} : g ∈ keysAbove key score l f ↔ ∃ x ∈ l, f ≤ score x ∧ key x = g := by
  simp [keysAbove, and_assoc]

lemma keysAbove_subset {l' : List α} (h : l ⊆ l') :
    keysAbove key score l f ⊆ keysAbove key score l' f := by
  intro g hg
  obtain ⟨x, hx, hfx, rfl⟩ := mem_keysAbove.1 hg
  exact mem_keysAbove.2 ⟨x, h hx, hfx, rfl⟩

end

variable [DecidableEq α] (key : α → κ) (best : α → α → Ordering)

/-- An element that no element of its group beats. -/
def IsChampion (l : List α) (c : α) : Prop := ∀ x ∈ l, key x = key c → RanksLE best c x

instance (l : List α) : DecidablePred (IsChampion key best l) := fun c =>
  inferInstanceAs (Decidable (∀ x ∈ l, key x = key c → RanksLE best c x))

/-- The champions of a list, each once. -/
def champions (l : List α) : List α := (l.filter (IsChampion key best l)).dedup

/-- No two elements of a group are equally good. -/
def Decided (l : List α) : Prop :=
  ∀ x ∈ l, ∀ y ∈ l, key x = key y → best x y = .eq → x = y

variable {key best} {l : List α} {c : α} {f : S} {score : α → S} {k : ℕ}

lemma mem_champions : c ∈ champions key best l ↔ c ∈ l ∧ IsChampion key best l c := by
  simp [champions]

lemma nodup_champions (l : List α) : (champions key best l).Nodup := List.nodup_dedup _

lemma perm_champions {cs : List α} (hnd : cs.Nodup)
    (h : ∀ c, c ∈ cs ↔ c ∈ l ∧ IsChampion key best l c) : cs.Perm (champions key best l) :=
  (perm_ext_iff_of_nodup hnd (nodup_champions l)).2 fun c => (h c).trans mem_champions.symm

lemma champions_perm {l' : List α} (h : l.Perm l') :
    (champions key best l).Perm (champions key best l') := by
  refine perm_champions (nodup_champions l) fun c => ?_
  rw [mem_champions]
  exact and_congr h.mem_iff ⟨fun hc x hx => hc x (h.mem_iff.2 hx), fun hc x hx =>
    hc x (h.mem_iff.1 hx)⟩

/-- Losing elements below a score leaves the champions at or above it. -/
lemma filter_champions_append (hs : RanksByScore best score) {dropped kept : List α}
    (hbelow : ∀ d ∈ dropped, score d < f) :
    ((champions key best (dropped ++ kept)).filter fun x => f ≤ score x).Perm
      ((champions key best kept).filter fun x => f ≤ score x) := by
  refine (perm_ext_iff_of_nodup ((nodup_champions _).filter _)
    ((nodup_champions _).filter _)).2 fun c => ?_
  simp only [mem_filter, mem_champions, decide_eq_true_eq, mem_append]
  constructor
  · rintro ⟨⟨hmem, hc⟩, hf⟩
    have hkept : c ∈ kept := hmem.resolve_left fun hd => absurd hf (not_le.2 (hbelow c hd))
    exact ⟨⟨hkept, fun x hx => hc x (by simp [hx])⟩, hf⟩
  · rintro ⟨⟨hmem, hc⟩, hf⟩
    refine ⟨⟨.inr hmem, fun x hx hkey => ?_⟩, hf⟩
    rcases mem_append.1 hx with hx | hx
    · exact RanksLE.of_lt (hs ((hbelow x hx).trans_le hf))
    · exact hc x hx hkey

section

variable [Std.TransCmp best]

/-- Every group has a champion. -/
lemma exists_champion {x : α} (hx : x ∈ l) :
    ∃ c ∈ champions key best l, key c = key x ∧ RanksLE best c x := by
  have hmem : x ∈ sortBy best (l.filter fun y => key y = key x) := by simp [mem_sortBy, hx]
  obtain ⟨c, t, hct⟩ := exists_cons_of_ne_nil (ne_nil_of_mem hmem)
  have hsort := hct ▸ pairwise_sortBy _
  have hc : c ∈ l ∧ key c = key x := by
    have : c ∈ sortBy best (l.filter fun y => key y = key x) := by simp [hct]
    simpa [mem_sortBy] using this
  have hle : ∀ y ∈ l, key y = key x → RanksLE best c y := by
    intro y hy hkey
    have : y ∈ c :: t := by
      rw [← hct]
      simp [mem_sortBy, hy, hkey]
    rcases mem_cons.1 this with rfl | hyt
    · exact RanksLE.refl _
    · exact (pairwise_cons.1 hsort).1 y hyt
  exact ⟨c, mem_champions.2 ⟨hc.1, fun y hy hkey => hle y hy (hkey.trans hc.2)⟩, hc.2, hle x hx rfl⟩

lemma eq_of_champions (hd : Decided key best l) {c' : α} (hc : c ∈ champions key best l)
    (hc' : c' ∈ champions key best l) (hkey : key c = key c') : c = c' := by
  rw [mem_champions] at hc hc'
  refine hd c hc.1 c' hc'.1 hkey ?_
  exact Std.OrientedCmp.isLE_antisymm (hc.2 c' hc'.1 hkey.symm) (hc'.2 c hc.1 hkey)

/-- **A score is a safe floor of the champions when `k` groups reach it.** -/
theorem isFloor_champions_iff (hs : RanksByScore best score) (hd : Decided key best l) :
    IsFloor score k (champions key best l) f ↔ k ≤ (keysAbove key score l f).card := by
  have hcard : (keysAbove key score l f).card =
      (champions key best l).countP fun x => decide (f ≤ score x) := by
    rw [countP_eq_length_filter, ← length_map (f := key), ← toFinset_card_of_nodup]
    · congr 1
      ext g
      rw [mem_keysAbove]
      simp only [mem_toFinset, mem_map, mem_filter, decide_eq_true_eq]
      constructor
      · rintro ⟨x, hx, hfx, rfl⟩
        obtain ⟨c, hc, hkey, hle⟩ : ∃ c ∈ champions key best l, key c = key x ∧ RanksLE best c x :=
          exists_champion hx
        exact ⟨c, ⟨hc, hfx.trans (hs.score_le hle)⟩, hkey⟩
      · rintro ⟨c, ⟨hc, hfc⟩, rfl⟩
        exact ⟨c, (mem_champions.1 hc).1, hfc, rfl⟩
    · refine List.Nodup.map_on ?_ ((nodup_champions l).filter _)
      intro c hc c' hc' hkey
      exact eq_of_champions hd (mem_of_mem_filter hc) (mem_of_mem_filter hc') hkey
  rw [hcard]
  rfl

/-- **Pruning below a score that `k` champions reach loses no ranked champion.** -/
theorem topK_champions_append {rank : α → α → Ordering} [Std.TransCmp rank]
    [Std.LawfulEqCmp rank] (hs : RanksByScore best score) (hr : RanksByScore rank score)
    {dropped kept : List α} (hd : Decided key best (dropped ++ kept))
    (hbelow : ∀ d ∈ dropped, score d < f) (hf : IsFloor score k (champions key best kept) f) :
    topK rank k (champions key best (dropped ++ kept)) = topK rank k (champions key best kept) := by
  have hkept : Decided key best kept := fun x hx y hy =>
    hd x (by simp [hx]) y (by simp [hy])
  have hf' : IsFloor score k (champions key best (dropped ++ kept)) f := by
    rw [isFloor_champions_iff hs hd]
    rw [isFloor_champions_iff hs hkept] at hf
    exact hf.trans (Finset.card_le_card (keysAbove_subset (subset_append_right _ _)))
  rw [topK_filter_of_isFloor hr hf', topK_filter_of_isFloor hr hf,
    topK_eq_of_perm (filter_champions_append hs hbelow)]

end

end ProtomoltSearch.TopK
