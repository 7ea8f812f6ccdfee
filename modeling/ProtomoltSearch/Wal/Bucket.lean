import ProtomoltSearch.Wal.Recovery

/-!
# Cut files and failed appends

A file that is cut anywhere, resumed and appended to reads back as its whole frames and the new
records (`cut_reads_back`), if those fit the 32 bits of a frame's length.

An append that fails in the middle of its frame leaves what it has written in the file, and it is
counted before: the log is consistent after a run exactly when no append to a bucket has failed
(`consistent_iff`).
-/

namespace ProtomoltSearch.Wal.Generation

open Framing List

variable {F D M : Type}

section

variable (g : Generation F D M)

/-- The records of a file, as its reader yields them. -/
def records (bytes : Bytes) : Except WalError (List (WalRecord F D M)) :=
  (fun r => r.1.map Prod.snd) <$> g.readFile (fun _ => none) bytes

/-- Append one record, of a clock and an operation, to a file. -/
def BucketWriter.append (w : BucketWriter) (e : ℕ × Op F D M) : BucketWriter :=
  { w with
    content := w.content ++ g.frameOf ⟨w.nextSeq, e.1, some e.2⟩
    nextSeq := w.nextSeq + 1 }

/-- Resume on a file as it is found. -/
def reopen (bytes : Bytes) : Except WalError BucketWriter := do
  let scan ← g.scanRecords bytes
  pure (openAppend bytes scan)

/-- The records that appends write, numbered from `seq`. -/
def numbered : ℕ → List (ℕ × Op F D M) → List (WalRecord F D M)
  | _, [] => []
  | seq, e :: es => ⟨seq, e.1, some e.2⟩ :: numbered (seq + 1) es

/-- What happens at a writer: an event, or an append that fails within its frame. -/
inductive Attempt (F D M : Type) where
  | done (event : Event F D M)
  | failed (op : Op F D M) (forced : Option ℕ) (written : ℕ)

def Attempt.event : Attempt F D M → Event F D M
  | .done event => event
  | .failed op forced _ => .append op forced

def Attempt.event? : Attempt F D M → Option (Event F D M)
  | .done event => some event
  | .failed _ _ _ => none

/-- A writer and the number of records it reports. -/
structure Counted where
  writer : WalWriter
  recordsAppended : ℕ

/-- Whether an event reaches a bucket file. -/
def reaches : Event F D M → Bool
  | .append op forced => g.accepts op forced && (g.hashed op).isSome
  | .flush => false

/-- An append that fails: the bytes written stay, the numbers do not move. -/
def appendFailed (w : WalWriter) (op : Op F D M) (forced : Option ℕ) (written : ℕ) : WalWriter :=
  if g.accepts op forced then
    let f := g.fileOf op forced
    let file := w.files f
    { w with
      files := Function.update w.files f
        { file with
          content := file.content ++
            (g.frameOf ⟨file.nextSeq, w.nextClock, some op⟩).take written } }
  else w

/-- One attempt: the count goes up before the record is written; markers are not counted. -/
def attempt (c : Counted) (a : Attempt F D M) : Counted :=
  { writer := match a with
      | .done event => g.apply c.writer event
      | .failed op forced written => g.appendFailed c.writer op forced written
    recordsAppended := if g.reaches a.event then c.recordsAppended + 1 else c.recordsAppended }

variable (attempts : List (Attempt F D M))

def attemptAll : Counted := attempts.foldl g.attempt ⟨create, 0⟩

/-- The records whose appends succeeded, with their files. -/
def succeeded : List (FileId × WalRecord F D M) :=
  g.placed 1 (fun _ => 0) (attempts.filterMap Attempt.event?)

/-- **The log is consistent**: each bucket file reads back as the records that were appended to it,
and the reported count is their number. -/
def Consistent : Prop :=
  (∀ b, g.records ((g.attemptAll attempts).writer.files (.bucket b)).content =
      .ok (fileRecords (g.succeeded attempts) (.bucket b))) ∧
    (g.attemptAll attempts).recordsAppended =
      (g.succeeded attempts).countP fun e => e.1 ≠ .markers

/-- Whether an attempt is an append to a bucket file that fails. -/
def fails : Attempt F D M → Bool
  | .done _ => false
  | .failed op forced _ => g.reaches (.append op forced)

/-- No append to a bucket file has failed. -/
def Unfailing : Prop := ∀ a ∈ attempts, g.fails a = false

end

variable {g : Generation F D M} {rs : List (WalRecord F D M)}

lemma records_take (hfit : g.Fits rs) (hseq : SeqFrom 1 rs) (n : ℕ) :
    g.records ((rs.flatMap g.frameOf).take n) = .ok (wholes g.frameOf n rs) := by
  rw [records, readFile_take hfit (fun _ _ => rfl) hseq]
  exact congrArg Except.ok (positions_map_snd 0 _)

lemma records_frames (hfit : g.Fits rs) (hseq : SeqFrom 1 rs) :
    g.records (rs.flatMap g.frameOf) = .ok rs := by
  have h := records_take hfit hseq (rs.flatMap g.frameOf).length
  rwa [take_length, wholes_of_length_le le_rfl] at h

lemma seqFrom_append {s : ℕ} (h : SeqFrom s rs) (es : List (ℕ × Op F D M)) :
    SeqFrom s (rs ++ numbered (s + rs.length) es) := by
  induction rs generalizing s with
  | nil =>
    induction es generalizing s with
    | nil => trivial
    | cons e es ih => exact ⟨rfl, ih trivial⟩
  | cons r rs ih =>
    have hlen : s + (r :: rs).length = s + 1 + rs.length := by
      rw [length_cons]
      omega
    rw [hlen]
    exact ⟨h.1, ih h.2⟩

open BucketWriter

lemma content_foldl_append (w : BucketWriter) (es : List (ℕ × Op F D M)) :
    (es.foldl (BucketWriter.append g) w).content =
      w.content ++ (numbered w.nextSeq es).flatMap g.frameOf := by
  induction es generalizing w with
  | nil => simp [numbered]
  | cons e es ih =>
    rw [foldl_cons, ih]
    simp [append, numbered]

/-- **A cut file reads back** as its whole frames; resumed and appended to, it reads back as these
and the new records, numbered without a gap. -/
theorem cut_reads_back (g : Generation F D M) (first more : List (ℕ × Op F D M)) (n : ℕ)
    (hfirst : g.Fits (numbered 1 first))
    (hmore : g.Fits (numbered ((wholes g.frameOf n (numbered 1 first)).length + 1) more)) :
    let cut := (first.foldl (append g) ⟨[], 1, 0⟩).content.take n
    let kept := wholes g.frameOf n (numbered 1 first)
    g.records cut = .ok kept ∧ ∃ w, g.reopen cut = .ok w ∧
      g.records (more.foldl (append g) w).content =
        .ok (kept ++ numbered (kept.length + 1) more) ∧
      SeqFrom 1 (kept ++ numbered (kept.length + 1) more) := by
  intro cut kept
  have hnil : SeqFrom 1 ([] : List (WalRecord F D M)) := trivial
  have hseq := seqFrom_append hnil first
  have hcut : cut = ((numbered 1 first).flatMap g.frameOf).take n :=
    congrArg (List.take n) (content_foldl_append _ first)
  have hkept : kept <+: numbered 1 first := wholes_initial n _
  have hall : SeqFrom 1 (kept ++ numbered (kept.length + 1) more) := by
    rw [Nat.add_comm]
    exact seqFrom_append (hseq.of_initial hkept) more
  have htake : cut.take (kept.flatMap g.frameOf).length = kept.flatMap g.frameOf := by
    rw [hcut, take_take, min_eq_left (wholes_length_le n _)]
    obtain ⟨rest, hrest⟩ := hkept
    have hsplit := congrArg (flatMap g.frameOf) hrest
    rw [flatMap_append] at hsplit
    exact (congrArg (List.take _) hsplit.symm).trans take_left
  have hreopen : g.reopen cut = .ok (openAppend cut ⟨kept.length,
      (kept.flatMap g.frameOf).length, Counting.greatest (kept.map WalRecord.clock)⟩) := by
    rw [reopen, hcut, scanRecords_take hfirst hseq]
    rfl
  refine ⟨?_, _, hreopen, ?_, hall⟩
  · rw [hcut]
    exact records_take hfirst hseq n
  · rw [content_foldl_append, openAppend, htake, ← flatMap_append]
    refine records_frames (fun r hr => ?_) hall
    rcases mem_append.1 hr with hr | hr
    · exact hfirst r (hkept.subset hr)
    · exact hmore r hr

/-- A file of one add, cut in the middle of a second, takes a third in its place. -/
theorem cut_reads_back_sample :
    let add := fun n : ℕ => (n, (Op.addVectors (idOf n) [] [] : Op Unit Unit Unit))
    let cut := ([add 1, add 2].foldl (append twoBuckets) ⟨[], 1, 0⟩).content.take 20
    ∃ w, twoBuckets.reopen cut = .ok w ∧
      twoBuckets.records ([add 3].foldl (append twoBuckets) w).content =
        .ok (numbered 1 [add 1, add 3]) := by
  intro add cut
  obtain ⟨-, w, hw, hrecords, -⟩ := cut_reads_back twoBuckets [add 1, add 2] [add 3] 20
    (by unfold Fits; decide +kernel) (by unfold Fits; decide +kernel)
  exact ⟨w, hw, hrecords⟩

/-- The records that reach a bucket file are those of the appends that do. -/
lemma countP_placed (clock : ℕ) (count : FileId → ℕ) (events : List (Event F D M)) :
    (g.placed clock count events).countP (fun e => e.1 ≠ .markers) = events.countP g.reaches := by
  induction events generalizing clock count with
  | nil => rfl
  | cons e events ih =>
    cases e with
    | flush => exact ih clock count
    | append op forced =>
      rw [countP_cons, placed]
      cases hacc : g.accepts op forced with
      | false =>
        rw [if_neg Bool.false_ne_true, ih]
        simp [reaches, hacc]
      | true =>
        rw [if_pos rfl, countP_cons, ih]
        have hfile : g.fileOf op forced ≠ .markers ↔ (g.hashed op).isSome = true := by
          unfold fileOf
          cases forced <;> cases g.hashed op <;> simp
        simp [reaches, hacc, hfile]

/-- The count is that of the appends that reach a bucket, failed or not. -/
lemma recordsAppended_foldl (c : Counted) (attempts : List (Attempt F D M)) :
    (attempts.foldl g.attempt c).recordsAppended =
      c.recordsAppended + (attempts.map Attempt.event).countP g.reaches := by
  induction attempts generalizing c with
  | nil => rfl
  | cons a attempts ih =>
    rw [foldl_cons, ih, map_cons, countP_cons]
    unfold attempt
    dsimp only
    split <;> omega

/-- Two writers that differ in their markers only. -/
def SameBuckets (w w' : WalWriter) : Prop :=
  w.nextClock = w'.nextClock ∧ ∀ b, w.files (.bucket b) = w'.files (.bucket b)

lemma SameBuckets.appendRouted {w w' : WalWriter} (h : SameBuckets w w') (op : Op F D M)
    (forced : Option ℕ) : SameBuckets (g.appendRouted w op forced) (g.appendRouted w' op forced) := by
  unfold Generation.appendRouted
  split
  · refine ⟨congrArg (· + 1) h.1, fun b => ?_⟩
    by_cases hf : .bucket b = g.fileOf op forced
    · simp [← hf, h.1, h.2]
    · simp [Function.update_of_ne hf, h.2]
  · exact h

lemma SameBuckets.appendFailed {w w' : WalWriter} (h : SameBuckets w w') {op : Op F D M}
    {forced : Option ℕ} (hop : g.reaches (.append op forced) = false) (written : ℕ) :
    SameBuckets (g.appendFailed w op forced written) w' := by
  unfold Generation.appendFailed
  split
  · rename_i hacc
    have hfile : g.fileOf op forced = .markers := by
      rw [reaches, hacc, Bool.true_and, Option.isSome_eq_false_iff, Option.isNone_iff_eq_none] at hop
      unfold fileOf
      rw [hop]
      cases forced <;> rfl
    refine ⟨h.1, fun b => ?_⟩
    simp [hfile, h.2]
  · exact h

/-- Without failed appends to buckets, the bucket files are those of the appends that succeeded. -/
lemma SameBuckets.run {attempts : List (Attempt F D M)} (h : g.Unfailing attempts) {c : Counted}
    {w : WalWriter} (hw : SameBuckets c.writer w) : SameBuckets (attempts.foldl g.attempt c).writer
      (g.run w (attempts.filterMap Attempt.event?)) := by
  induction attempts generalizing c w with
  | nil => exact hw
  | cons a attempts ih =>
    have htail : g.Unfailing attempts := fun a ha => h a (mem_cons_of_mem _ ha)
    rcases a with (⟨op, forced⟩ | -) | ⟨op, forced, written⟩
    · exact ih htail (hw.appendRouted op forced)
    · exact ih htail ⟨hw.1, fun b => by simp only [attempt, apply, Generation.flush, hw.2]⟩
    · exact ih htail (hw.appendFailed (h _ mem_cons_self) written)

/-- The events that reach a bucket are those that succeed and those that fail. -/
lemma countP_event (attempts : List (Attempt F D M)) :
    (attempts.map Attempt.event).countP g.reaches =
      (attempts.filterMap Attempt.event?).countP g.reaches + attempts.countP g.fails := by
  induction attempts with
  | nil => rfl
  | cons a attempts ih =>
    rw [map_cons, countP_cons, ih, countP_cons]
    cases a with
    | done event =>
      have hdone : (Attempt.done event).event? = some event := rfl
      rw [filterMap_cons_some hdone, countP_cons]
      exact Nat.add_right_comm ..
    | failed op forced written =>
      rw [Nat.add_assoc]
      rfl

/-- **The log is consistent exactly when no append to a bucket file has failed.** -/
theorem consistent_iff (g : Generation F D M) (attempts : List (Attempt F D M))
    (hfit : g.Fits ((g.succeeded attempts).map Prod.snd)) :
    g.Consistent attempts ↔ g.Unfailing attempts := by
  rw [Consistent, succeeded, countP_placed, attemptAll, recordsAppended_foldl, countP_event,
    Nat.zero_add, Nat.add_eq_left, countP_eq_zero]
  simp only [Bool.not_eq_true]
  refine and_iff_right_of_imp fun h b => ?_
  have hholds := (holds_create (g := g)).run (attempts.filterMap Attempt.event?)
  have hsame : SameBuckets (attempts.foldl g.attempt ⟨create, 0⟩).writer _ :=
    SameBuckets.run h ⟨rfl, fun _ => rfl⟩
  rw [hsame.2, hholds.content]
  refine records_frames (fun r hr => hfit r ?_) (hholds.seqs _)
  obtain ⟨e, he, rfl⟩ := mem_map.1 hr
  exact mem_map_of_mem (mem_filter.1 he).1

/-- An append, a marker that fails and another append. -/
theorem consistent_iff_sample : twoBuckets.Consistent
      [.done (.append (.addVectors (idOf 3) [] []) none), .failed .flush none 4,
        .done (.append (.addVectors (idOf 3) [] []) none)] :=
  (consistent_iff twoBuckets _ (by unfold Fits; decide +kernel)).2
    (by unfold Unfailing; decide +kernel)

/-- **A failed append spoils its bucket**: a later record is not read back, and two are reported. -/
theorem not_consistent_failed : let attempts : List (Attempt Unit Unit Unit) :=
      [.failed (.addVectors (idOf 3) [] []) none 4,
        .done (.append (.addVectors (idOf 3) [] []) none)]
    ¬ twoBuckets.Consistent attempts ∧
      twoBuckets.records ((twoBuckets.attemptAll attempts).writer.files (.bucket 1)).content =
        .error (.crcMismatch 0) ∧
      (twoBuckets.attemptAll attempts).recordsAppended = 2 := by
  refine ⟨fun h => absurd h.2 (by decide +kernel), by decide +kernel, by decide +kernel⟩

end ProtomoltSearch.Wal.Generation
