import ProtomoltSearch.Foundations.TopK

/-!
# Candidates for a term

The dictionary entries within some edits of a term, the nearest first (`synonyms.rs`).
`editDistance` fills the table of optimal string alignment row by row and gives up at a row that is
past the bound. A transposition reads the row before the last one; since a row is at most one above
the one before it (`row_delete`), no later row comes back within the bound (`bound_lt_row`).
-/

namespace ProtomoltSearch.Synonyms

open List TopK

section

variable (a b : List Char)

/-- The entry of row `i` at column `j`, after the entry on its left. -/
def best (prev2 prev : ℕ → ℕ) (left i j : ℕ) : ℕ :=
  let cost := if a[i - 1]? ≠ b[j - 1]? then 1 else 0
  let best := min (min (prev j + 1) (left + 1)) (prev (j - 1) + cost)
  if 1 < i ∧ 1 < j ∧ a[i - 1]? = b[j - 2]? ∧ a[i - 2]? = b[j - 1]? then
    min best (prev2 (j - 2) + 1)
  else best

/-- Row `i`, after the two rows above it. -/
def cur (prev2 prev : ℕ → ℕ) (i : ℕ) : ℕ → ℕ
  | 0 => i
  | j + 1 => best a b prev2 prev (cur prev2 prev i j) i (j + 1)

def rowMin (row : ℕ → ℕ) : ℕ → ℕ
  | 0 => row 0
  | j + 1 => min (rowMin row j) (row (j + 1))

/-- The answer past the bound; in a release build the sum wraps. -/
def past (bound : ℕ) : ℕ := (bound + 1) % 2 ^ 64

/-- The loop over the rows that remain after row `i`. -/
def scan (bound : ℕ) : ℕ → ℕ → (ℕ → ℕ) → (ℕ → ℕ) → ℕ
  | 0, _, _, prev => min (prev b.length) (past bound)
  | n + 1, i, prev2, prev =>
    if bound < rowMin (cur a b prev2 prev (i + 1)) b.length then past bound
    else scan bound n (i + 1) prev (cur a b prev2 prev (i + 1))

def editDistance (bound : ℕ) : ℕ :=
  if bound < Nat.dist a.length b.length then past bound
  else scan a b bound a.length 0 (fun _ => 0) id

/-- The first `i` characters of `a` become the first `j` of `b` by `n` edits of different characters. -/
inductive Aligns : ℕ → ℕ → ℕ → Prop
  | nil : Aligns 0 0 0
  | keep {i j n : ℕ} (h : Aligns i j n) (heq : a[i]? = b[j]?) : Aligns (i + 1) (j + 1) n
  | substitute {i j n : ℕ} (h : Aligns i j n) : Aligns (i + 1) (j + 1) (n + 1)
  | delete {i j n : ℕ} (h : Aligns i j n) : Aligns (i + 1) j (n + 1)
  | insert {i j n : ℕ} (h : Aligns i j n) : Aligns i (j + 1) (n + 1)
  | transpose {i j n : ℕ} (h : Aligns i j n) (heq : a[i + 1]? = b[j]?) (heq' : a[i]? = b[j + 1]?) :
    Aligns (i + 2) (j + 2) (n + 1)

/-- The optimal string alignment distance. -/
noncomputable def osaDistance : ℕ := sInf {n | Aligns a b a.length b.length n}

def rows : ℕ → (ℕ → ℕ) × (ℕ → ℕ)
  | 0 => (fun _ => 0, id)
  | i + 1 => ((rows i).2, cur a b (rows i).1 (rows i).2 (i + 1))

def row (i : ℕ) : ℕ → ℕ := (rows a b i).2

lemma row_succ (i j : ℕ) : row a b (i + 1) (j + 1) =
    best a b (rows a b i).1 (row a b i) (row a b (i + 1) j) (i + 1) (j + 1) := rfl

lemma rows_succ_fst (i : ℕ) : (rows a b (i + 1)).1 = row a b i := rfl

lemma row_delete (i j : ℕ) : row a b (i + 1) j ≤ row a b i j + 1 := by
  cases j with
  | zero => cases i <;> exact le_rfl
  | succ j => grind [row_succ, best]

lemma row_insert (i j : ℕ) : row a b i (j + 1) ≤ row a b i j + 1 := by
  cases i with
  | zero => exact le_rfl
  | succ i => grind [row_succ, best]

/-- The edit that ends a best alignment. -/
lemma row_cases (i j : ℕ) : row a b (i + 1) (j + 1) = row a b i (j + 1) + 1 ∨
    row a b (i + 1) (j + 1) = row a b (i + 1) j + 1 ∨ row a b (i + 1) (j + 1) = row a b i j + 1 ∨
    row a b (i + 1) (j + 1) = row a b i j ∧ a[i]? = b[j]? ∨ ∃ i' j', i = i' + 1 ∧ j = j' + 1 ∧
    row a b (i + 1) (j + 1) = row a b i' j' + 1 ∧ a[i' + 1]? = b[j']? ∧ a[i']? = b[j' + 1]? := by
  cases i with
  | zero => grind [row_succ, best]
  | succ i =>
    cases j with
    | zero => grind [row_succ, best]
    | succ j =>
      rw [row_succ, rows_succ_fst, best]
      grind

variable {a b} {i j : ℕ}

lemma row_le_of_aligns {n : ℕ} (h : Aligns a b i j n) : row a b i j ≤ n := by
  induction h with
  | nil => exact le_rfl
  | keep _ heq ih => grind [row_succ, best]
  | substitute _ ih => grind [row_succ, best]
  | delete _ ih => exact (row_delete a b _ _).trans (Nat.succ_le_succ ih)
  | insert _ ih => exact (row_insert a b _ _).trans (Nat.succ_le_succ ih)
  | transpose _ heq heq' ih =>
    rw [row_succ, rows_succ_fst, best]
    grind

lemma aligns_row (i j : ℕ) : Aligns a b i j (row a b i j) := by
  induction i using Nat.strong_induction_on generalizing j with
  | h i ih =>
    cases i with
    | zero =>
      induction j with
      | zero => exact .nil
      | succ j ihj => exact ihj.insert
    | succ i =>
      have habove := ih i i.lt_succ_self
      induction j with
      | zero => cases i <;> exact (habove 0).delete
      | succ j ihj =>
        rcases row_cases a b i j with h | h | h | ⟨h, heq⟩ | ⟨i, j, rfl, rfl, h, heq, heq'⟩ <;> rw [h]
        · exact (habove (j + 1)).delete
        · exact ihj.insert
        · exact (habove j).substitute
        · exact (habove j).keep heq
        · exact (ih i (by omega) j).transpose heq heq'

lemma osaDistance_eq : osaDistance a b = row a b a.length b.length :=
  IsLeast.csInf_eq ⟨aligns_row _ _, fun _ => row_le_of_aligns⟩

variable {bound : ℕ}

lemma dist_le_of_aligns {n : ℕ} (h : Aligns a b i j n) : Nat.dist i j ≤ n := by
  induction h <;> simp only [Nat.dist] at * <;> omega

lemma bound_lt_rowMin {row : ℕ → ℕ} {w : ℕ} : bound < rowMin row w ↔ ∀ j ≤ w, bound < row j := by
  induction w with
  | zero => simp [rowMin]
  | succ w ih =>
    rw [rowMin, lt_min_iff, ih]
    refine ⟨fun h j hj => ?_, fun h => ⟨fun j hj => h j (Nat.le_succ_of_le hj), h _ le_rfl⟩⟩
    exact (Nat.le_succ_iff.1 hj).elim (h.1 j) (· ▸ h.2)

section

variable {w : ℕ} (h : ∀ j ≤ w, bound < row a b (i + 1) j)

include h

lemma bound_lt_row_succ : ∀ j ≤ w, bound < row a b (i + 1 + 1) j := by
  intro j hj
  induction j with
  | zero => exact (h 0 hj).trans_le (Nat.le_succ _)
  | succ j ih =>
    have hup := h (j + 1) hj
    have hdiag := h j (by omega)
    have hleft := ih (by omega)
    rcases row_cases a b (i + 1) j with h' | h' | h' | ⟨h', -⟩ | ⟨i', j', hi, rfl, h', -⟩
    · omega
    · omega
    · omega
    · omega
    · -- a transposition skips the row past the bound, but starts at most one below it
      obtain rfl := Nat.succ.inj hi
      have hskip := h j' (by omega)
      have hdelete := row_delete a b i j'
      omega

lemma bound_lt_row (k : ℕ) : ∀ j ≤ w, bound < row a b (i + k + 1) j := by
  induction k with
  | zero => exact h
  | succ k ih => exact bound_lt_row_succ ih

end

lemma scan_eq (hb : bound + 1 < 2 ^ 64) (n i : ℕ) :
    scan a b bound n i (rows a b i).1 (row a b i) = min (bound + 1) (row a b (i + n) b.length) := by
  induction n generalizing i with
  | zero =>
    rw [scan, past, Nat.mod_eq_of_lt hb, min_comm]
    rfl
  | succ n ih =>
    rw [scan]
    split
    · rename_i h
      rw [past, Nat.mod_eq_of_lt hb]
      exact (min_eq_left (bound_lt_row (bound_lt_rowMin.1 h) n _ le_rfl)).symm
    · have hrest := ih (i + 1)
      rwa [Nat.add_right_comm] at hrest

lemma editDistance_eq (hb : bound + 1 < 2 ^ 64) :
    editDistance a b bound = min (bound + 1) (osaDistance a b) := by
  rw [editDistance, osaDistance_eq]
  split
  · rename_i h
    rw [past, Nat.mod_eq_of_lt hb, min_eq_left (h.trans_le (dist_le_of_aligns (aligns_row _ _)))]
  · have hscan := scan_eq (a := a) (b := b) hb a.length 0
    rwa [Nat.zero_add] at hscan

end

/-- What the sort sees of a candidate. -/
structure Ranked where
  distance : ℕ
  df : ℕ
  term : List Char
  shards : ℕ

/-- Distance ascending, df descending, then the bytes of the term. -/
def order : Ranked → Ranked → Ordering :=
  compareLex (compareOn Ranked.distance) (compareLex (fun x y => compareOn Ranked.df y x)
    (compareOn fun x => x.term.flatMap String.utf8EncodeChar))

structure TermCandidate where
  term : List Char
  df : ℕ
  distance : ℕ
  shards : ℕ
  deriving DecidableEq

def Ranked.candidate (r : Ranked) : TermCandidate := ⟨r.term, r.df, r.distance % 2 ^ 32, r.shards⟩

variable (term : List Char) (entries : List (List Char × ℕ × ℕ)) (maxEdits limit : ℕ)

/-- The other entries that a distance puts within the limit. -/
def within (distance : List Char → ℕ) : List Ranked :=
  (entries.filter (·.1 ≠ term)).filterMap fun e =>
    if distance e.1 ≤ maxEdits then some ⟨distance e.1, e.2.1, e.1, e.2.2⟩ else none

def rankCandidates : List TermCandidate :=
  (topK order limit (within term entries maxEdits (editDistance term · maxEdits))).map
    Ranked.candidate

instance : Std.TransCmp order := by
  unfold order
  infer_instance

/-- **The candidates are the first of all other entries within the limit.** -/
theorem rankCandidates_spec :
    (∀ a b bound, bound < 2 ^ 64 - 1 → editDistance a b bound = min (bound + 1) (osaDistance a b)) ∧
    ∀ term entries maxEdits limit, maxEdits < 2 ^ 64 - 1 → ∃ ranked : List Ranked,
      ranked.Perm (within term entries maxEdits (osaDistance term)) ∧
      ranked.Pairwise (RanksLE order) ∧
      rankCandidates term entries maxEdits limit = (ranked.take limit).map Ranked.candidate := by
  refine ⟨fun a b bound h => editDistance_eq (by omega), fun term entries maxEdits limit h =>
    ⟨sortBy order (within term entries maxEdits (osaDistance term)), sortBy_perm _,
      pairwise_sortBy _, ?_⟩⟩
  have hwithin : within term entries maxEdits (editDistance term · maxEdits) =
      within term entries maxEdits (osaDistance term) := by
    have hmax : maxEdits + 1 < 2 ^ 64 := by omega
    unfold within
    congr 1
    funext e
    simp only [editDistance_eq hmax]
    grind
  rw [rankCandidates, hwithin, topK]

/-- With the largest limit every distance is zero, and the commoner entry goes first. -/
theorem rankCandidates_max :
    rankCandidates ['a'] [(['b'], 1, 1), (['b', 'c'], 9, 1)] (2 ^ 64 - 1) 1 =
        [⟨['b', 'c'], 9, 0, 1⟩] ∧
      osaDistance ['a'] ['b'] = 1 ∧ osaDistance ['a'] ['b', 'c'] = 2 := by
  rw [osaDistance_eq, osaDistance_eq]
  decide

end ProtomoltSearch.Synonyms
