import ProtomoltSearch.Wal.Reading

/-!
# What a run of the writer logs

`placed` lists the records a run of events appends, with the files they go to, without speaking of
bytes. `Holds` says that the files of a writer are the frames of given records; a run keeps it, and
adds to each file what `placed` puts there.
-/

namespace ProtomoltSearch.Wal.Generation

open Framing List

variable {F D M : Type} (g : Generation F D M)

/-- The records that events append, in order, from a clock and the files' record counts. -/
def placed : ℕ → (FileId → ℕ) → List (Event F D M) → List (FileId × WalRecord F D M)
  | _, _, [] => []
  | clock, count, .flush :: events => placed clock count events
  | clock, count, .append op forced :: events =>
    if g.accepts op forced then
      let f := g.fileOf op forced
      (f, ⟨count f + 1, clock, some op⟩) ::
        placed (clock + 1) (Function.update count f (count f + 1)) events
    else placed clock count events

def fileRecords (l : List (FileId × WalRecord F D M)) (f : FileId) : List (WalRecord F D M) :=
  (l.filter fun e => e.1 = f).map Prod.snd

variable {g} {l : List (FileId × WalRecord F D M)}

@[simp] lemma mem_fileRecords {f : FileId}
    {r : WalRecord F D M} : r ∈ fileRecords l f ↔ (f, r) ∈ l := by
  simp [fileRecords]

/-- The clocks of a run count on. -/
lemma placed_clocks (clock : ℕ) (count : FileId → ℕ) (events : List (Event F D M)) :
    (g.placed clock count events).map (fun e => e.2.clock) =
      List.range' clock (g.placed clock count events).length := by
  induction events generalizing clock count with
  | nil => rfl
  | cons e events ih =>
    cases e with
    | flush => exact ih clock count
    | append op forced =>
      unfold placed
      split
      · rw [map_cons, length_cons, List.range'_succ, ih]
      · exact ih clock count

/-- The files of a generation, as its directory lists them. -/
def files (order : List ℕ) : List FileId := FileId.markers :: order.map FileId.bucket

variable {order : List ℕ}

lemma nodup_files (h : order.Nodup) : (files order).Nodup := by
  refine nodup_cons.2 ⟨by simp, h.map fun a b hab => ?_⟩
  exact FileId.bucket.inj hab

/-- An accepted append goes to a file of the generation. -/
lemma fileOf_mem_files (hord : order.Perm (List.range g.bucketCount)) {op : Op F D M}
    {forced : Option ℕ} (h : g.accepts op forced = true) : g.fileOf op forced ∈ files order := by
  have hmem : ∀ b < g.bucketCount, FileId.bucket b ∈ files order := fun b hb =>
    mem_cons_of_mem _ (mem_map_of_mem (hord.mem_iff.2 (mem_range.2 hb)))
  have hhash : ∀ b, g.hashed op = some b → b < g.bucketCount := by
    intro b hb
    have hlt : ∀ id, Reshard.bucketOf id g.bucketCount < g.bucketCount := fun id =>
      Reshard.bucketOf_lt (g.bucketBits_le.trans (by norm_num))
    cases op <;> simp [hashed] at hb
    all_goals exact hb ▸ hlt _
  unfold fileOf
  cases hh : g.hashed op with
  | none => cases forced <;> exact mem_cons_self
  | some b =>
    cases forced with
    | none => exact hmem b (hhash b hh)
    | some b' =>
      refine hmem b' ?_
      unfold accepts at h
      rw [Bool.and_eq_true] at h
      simpa using h.1

lemma placed_mem_files (hord : order.Perm (List.range g.bucketCount))
    (clock : ℕ) (count : FileId → ℕ) (events : List (Event F D M)) :
    ∀ e ∈ g.placed clock count events, e.1 ∈ files order := by
  induction events generalizing clock count with
  | nil => intro e he; exact absurd he not_mem_nil
  | cons e events ih =>
    cases e with
    | flush => exact ih clock count
    | append op forced =>
      unfold placed
      split
      · rename_i hacc
        intro e he
        rcases mem_cons.1 he with rfl | he
        exacts [fileOf_mem_files hord hacc, ih _ _ e he]
      · exact ih clock count

/-- The records of all files, file by file, are the records of the run. -/
lemma flatMap_fileRecords_perm {fs : List FileId} (hn : fs.Nodup) (hmem : ∀ e ∈ l, e.1 ∈ fs) :
    (fs.flatMap (fileRecords l)).Perm (l.map Prod.snd) := by
  induction l with
  | nil => simp [fileRecords]
  | cons e l ih =>
    obtain ⟨before, after, rfl⟩ := append_of_mem (hmem e mem_cons_self)
    have hother : ∀ f, f ≠ e.1 → fileRecords (e :: l) f = fileRecords l f := by
      intro f hf
      simp [fileRecords, Ne.symm hf]
    have hself : fileRecords (e :: l) e.1 = e.2 :: fileRecords l e.1 := by
      simp [fileRecords]
    rw [nodup_append, nodup_cons] at hn
    have hbef := flatMap_congr fun f hf => hother f fun h => hn.2.2 f hf e.1 mem_cons_self h
    have haft := flatMap_congr fun f hf => hother f fun h => hn.2.1.1 (h ▸ hf)
    have ih := ih fun e he => hmem e (mem_cons_of_mem _ he)
    rw [flatMap_append, flatMap_cons] at ih ⊢
    rw [hbef, haft, hself]
    exact perm_middle.trans (ih.cons e.2)

/-- The files of a writer are the frames of the records `R`, numbered from one in each file. -/
structure Holds (g : Generation F D M) (w : WalWriter) (R : FileId → List (WalRecord F D M)) :
    Prop where
  content : ∀ f, (w.files f).content = (R f).flatMap g.frameOf
  nextSeq : ∀ f, (w.files f).nextSeq = (R f).length + 1
  seqs : ∀ f, SeqFrom 1 (R f)

lemma holds_create : g.Holds create fun _ => [] :=
  ⟨fun _ => rfl, fun _ => rfl, fun _ => trivial⟩

/-- Append to one file's records. -/
def extend (R : FileId → List (WalRecord F D M)) (l : List (FileId × WalRecord F D M)) (f : FileId) :
    List (WalRecord F D M) := R f ++ fileRecords l f

variable {R : FileId → List (WalRecord F D M)} {w : WalWriter}

lemma Holds.append (h : g.Holds w R) {op : Op F D M} {forced : Option ℕ}
    (hacc : g.accepts op forced = true) : g.Holds (g.appendRouted w op forced) (extend R
    [(g.fileOf op forced, ⟨(R (g.fileOf op forced)).length + 1, w.nextClock, some op⟩)]) := by
  set f₀ := g.fileOf op forced with hf₀
  set r : WalRecord F D M := ⟨(R f₀).length + 1, w.nextClock, some op⟩ with hr
  have hself : extend R [(f₀, r)] f₀ = R f₀ ++ [r] := by simp [extend, fileRecords]
  have hother : ∀ f, f ≠ f₀ → extend R [(f₀, r)] f = R f := by
    intro f hf
    simp [extend, fileRecords, Ne.symm hf]
  have hfile : ∀ f, (g.appendRouted w op forced).files f = if f = f₀ then
      { w.files f₀ with
        content := (w.files f₀).content ++ g.frameOf r
        nextSeq := (w.files f₀).nextSeq + 1 } else w.files f := by
    intro f
    unfold appendRouted
    rw [if_pos hacc]
    dsimp only
    rw [Function.update_apply, h.nextSeq f₀]
  constructor
  · intro f
    rw [hfile f]
    split
    · rename_i hf
      rw [hf, hself, flatMap_append, ← h.content]
      simp
    · rename_i hf
      rw [hother f hf, h.content]
  · intro f
    rw [hfile f]
    split
    · rename_i hf
      rw [hf, hself, length_append, length_singleton, h.nextSeq]
    · rename_i hf
      rw [hother f hf, h.nextSeq]
  · intro f
    by_cases hf : f = f₀
    · rw [hf, hself]
      exact (h.seqs f₀).append (Nat.add_comm _ _)
    · rw [hother f hf]
      exact h.seqs f

lemma Holds.flush (h : g.Holds w R) :
    g.Holds (Generation.flush w) R := ⟨h.content, h.nextSeq, h.seqs⟩

/-- **A run logs what `placed` lists.** -/
theorem Holds.run (h : g.Holds w R) (events : List (Event F D M)) : g.Holds (g.run w events)
      (extend R (g.placed w.nextClock (fun f => (R f).length) events)) := by
  induction events generalizing w R with
  | nil =>
    have : extend R (g.placed w.nextClock (fun f => (R f).length) []) = R := by
      funext f
      simp [extend, fileRecords, placed]
    rw [this]
    exact h
  | cons e events ih =>
    cases e with
    | flush => exact ih h.flush
    | append op forced =>
      unfold placed
      split
      · rename_i hacc
        have hstep := ih (h.append hacc)
        have hclock : (g.appendRouted w op forced).nextClock = w.nextClock + 1 := by
          rw [appendRouted, if_pos hacc]
        have hcnt : (fun f => (extend R [(g.fileOf op forced,
            ⟨(R (g.fileOf op forced)).length + 1, w.nextClock, some op⟩)] f).length) =
            Function.update (fun f => (R f).length) (g.fileOf op forced)
              ((R (g.fileOf op forced)).length + 1) := by
          funext f
          rw [Function.update_apply]
          split
          · rename_i hf
            simp [extend, fileRecords, hf]
          · rename_i hf
            simp [extend, fileRecords, Ne.symm hf]
        rw [hclock, hcnt] at hstep
        have hextend : ∀ l e, extend (extend R [e]) l = extend R (e :: l) := by
          intro l e
          funext f
          by_cases hf : e.1 = f <;> simp [extend, fileRecords, hf]
        rw [hextend] at hstep
        exact hstep
      · rename_i hacc
        have hsame : g.run w (.append op forced :: events) = g.run w events := by
          change g.run (g.appendRouted w op forced) events = _
          rw [appendRouted, if_neg hacc]
        rw [hsame]
        exact ih h

end ProtomoltSearch.Wal.Generation
