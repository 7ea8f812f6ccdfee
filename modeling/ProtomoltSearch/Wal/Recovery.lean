import ProtomoltSearch.Foundations.Overflow
import ProtomoltSearch.Wal.Log

/-!
# Crash and recovery

A crash keeps some bytes of each file, at least those synced by the last flush. Reopening, appending
and flushing again never fails on what a crash leaves. Reading the generation back may: a record can
be lost whose clock is below that of a record that survives in another file, and no later append fills
the gap. `readsBack_iff` says that this is the only way to fail.
-/

namespace ProtomoltSearch.Wal.Generation

open Framing TopK List Function WalRecord Counting FileId

variable {F D M : Type} (g : Generation F D M)

/-! ## The scenario -/

variable (R : FileId → List (WalRecord F D M)) (order : List ℕ)
  (S : FileId → List (WalRecord F D M)) (events : List (Event F D M)) (keep : FileId → ℕ)
  (cutoff : U64) (later : List (Event F D M)) (deletes : Bool) (f : FileId)
  (l : List (WalRecord F D M))

/-- Run, crash with `keep` bytes of each file left, reopen with a cutoff, run on, flush, read back. -/
def crashAndReadBack : Except WalError (List (WalRecord F D M)) := do
  let w := g.run create events
  let w' ← g.openExisting order cutoff fun f => (w.files f).content.take (keep f)
  let w'' := flush (g.run w' later)
  g.readClockedRecords order 0 fun f => (w''.files f).content

/-- The records logged before the crash. -/
def logged : FileId → List (WalRecord F D M) :=
  fileRecords (g.placed 1 (fun _ => 0) events)

/-- What the cut at the applied tip leaves of a file's records. -/
def uncut : List (WalRecord F D M) :=
  match f with
  | .bucket _ => l.takeWhile fun r => !cuts cutoff r
  | .markers => l

/-- The records that the crash and the cut leave. -/
def survivors : List (WalRecord F D M) :=
  uncut cutoff f (wholes g.frameOf (keep f) (R f))

def loggedAfter : List (FileId × WalRecord F D M) :=
  g.placed (Counting.greatest (((files order).flatMap S).map WalRecord.clock) + 1)
    (fun f => (S f).length) later

/-- Everything is read back: what was flushed before the crash and not cut, and what came after. -/
def ReadsBack : Prop :=
  ∃ rs, g.crashAndReadBack order events keep cutoff later = .ok rs ∧ rs.Nodup ∧
    (∀ f, ∀ r ∈ uncut cutoff f
      (wholes g.frameOf ((g.run create events).files f).durable (g.logged events f)), r ∈ rs) ∧
    ∀ e ∈ g.loggedAfter order (g.survivors (g.logged events) keep cutoff) later, e.2 ∈ rs

/-- No lost record is older than a surviving one, by the clock. -/
def ClockClosed : Prop :=
  ∀ f f' r r', r ∈ g.logged events f → r' ∈ g.survivors (g.logged events) keep cutoff f' →
    r.clock < r'.clock → r ∈ g.survivors (g.logged events) keep cutoff f

variable {g} {R : FileId → List (WalRecord F D M)} {order : List ℕ} {keep : FileId → ℕ}
  {cutoff : U64}

lemma uncut_initial : uncut cutoff f l <+: l := by
  cases f with
  | bucket b => exact takeWhile_prefix _
  | markers => exact prefix_rfl

lemma uncut_mono {f : FileId} {l l' : List (WalRecord F D M)} (h : l <+: l') :
    uncut cutoff f l <+: uncut cutoff f l' := by
  cases f with
  | bucket b =>
    obtain ⟨t, rfl⟩ := h
    change l.takeWhile _ <+: (l ++ t).takeWhile _
    rw [takeWhile_append]
    split
    · rename_i hlen
      have hall := takeWhile_prefix (l := l) fun r => !cuts cutoff r
      exact ⟨_, congrArg (· ++ _) (hall.eq_of_length hlen)⟩
    · exact prefix_rfl
  | markers => exact h

lemma survivors_initial : g.survivors R keep cutoff f <+: R f :=
  (uncut_initial f _).trans (wholes_initial _ _)

/-! ## Reopening -/

section

variable (hfit : ∀ f, g.Fits (R f)) (hseq : ∀ f, SeqFrom 1 (R f))

include hfit hseq

lemma truncateRecords_spec (hn : order.Nodup) (cutoff : U64) (keep : FileId → ℕ) :
    ∃ keep' : FileId → ℕ, g.truncateRecordsAtOrAbove order cutoff
        (fun f => ((R f).flatMap g.frameOf).take (keep f)) =
          .ok (fun f => ((R f).flatMap g.frameOf).take (keep' f)) ∧
      (∀ b ∈ order, wholes g.frameOf (keep' (.bucket b)) (R (.bucket b)) =
        (wholes g.frameOf (keep (.bucket b)) (R (.bucket b))).takeWhile fun r => !cuts cutoff r) ∧
      ∀ f, f ∉ order.map FileId.bucket → keep' f = keep f := by
  induction order generalizing keep with
  | nil => exact ⟨keep, rfl, by simp, fun _ _ => rfl⟩
  | cons b order ih =>
    obtain ⟨hb, hn⟩ := nodup_cons.1 hn
    obtain ⟨m, hm, hwholes⟩ := truncateFile_take (hfit (.bucket b)) (hseq (.bucket b)) cutoff
      (keep (.bucket b))
    obtain ⟨keep', hok, hin, hout⟩ := ih hn (update keep (.bucket b) m)
    have hdisk : update (fun f => ((R f).flatMap g.frameOf).take (keep f)) (.bucket b)
        (((R (.bucket b)).flatMap g.frameOf).take m) =
        fun f => ((R f).flatMap g.frameOf).take (update keep (.bucket b) m f) := by
      funext f
      by_cases hf : f = .bucket b
      · subst hf
        rw [update_self, update_self]
      · rw [update_of_ne hf, update_of_ne hf]
    have hbo : bucket b ∉ order.map bucket := by simpa using hb
    refine ⟨keep', ?_, ?_, ?_⟩
    · unfold truncateRecordsAtOrAbove at hok ⊢
      rw [foldlM_cons, hm]
      simp only [ok_bind]
      rw [hdisk]
      exact hok
    · intro b' hb'
      rcases mem_cons.1 hb' with rfl | hb'
      · rw [hout _ hbo, update_self, hwholes]
      · have hne : bucket b' ≠ .bucket b := by
          rintro h
          exact hb (bucket.inj h ▸ hb')
        rw [hin b' hb', update_of_ne hne]
    · intro f hf
      rw [map_cons, mem_cons, not_or] at hf
      rw [hout f hf.2, update_of_ne hf.1]

lemma foldlM_resumeFile (keep : FileId → ℕ) (fs : List FileId) (w : WalWriter) :
    ∃ w', fs.foldlM (g.resumeFile fun f => ((R f).flatMap g.frameOf).take (keep f)) w = .ok w' ∧
      (∀ f, w'.files f = if f ∈ fs then
        ⟨(wholes g.frameOf (keep f) (R f)).flatMap g.frameOf,
          (wholes g.frameOf (keep f) (R f)).length + 1, 0⟩ else w.files f) ∧
      w'.nextClock = (fs.map fun f => Counting.greatest
        ((wholes g.frameOf (keep f) (R f)).map WalRecord.clock) + 1).foldl max w.nextClock := by
  induction fs generalizing w with
  | nil => exact ⟨w, rfl, fun f => by simp, rfl⟩
  | cons f₀ fs ih =>
    set bytes := ((R f₀).flatMap g.frameOf).take (keep f₀) with hbytes
    set kept := wholes g.frameOf (keep f₀) (R f₀) with hkept
    have hcontent : bytes.take (kept.flatMap g.frameOf).length = kept.flatMap g.frameOf := by
      obtain ⟨rest, hrest⟩ : kept <+: R f₀ := wholes_initial _ _
      have hle : (kept.flatMap g.frameOf).length ≤ keep f₀ := wholes_length_le _ _
      rw [hbytes, take_take, min_eq_left hle, ← hrest, flatMap_append, take_left]
    obtain ⟨w', hok, hfiles, hclock⟩ := ih
      { files := update w.files f₀ ⟨kept.flatMap g.frameOf, kept.length + 1, 0⟩
        nextClock := max w.nextClock (greatest (kept.map clock) + 1) }
    refine ⟨w', ?_, fun f => ?_, by rw [hclock]; rfl⟩
    · rw [foldlM_cons]
      have hstep : g.resumeFile (fun f => ((R f).flatMap g.frameOf).take (keep f)) w f₀ = .ok
          { files := update w.files f₀ ⟨kept.flatMap g.frameOf, kept.length + 1, 0⟩
            nextClock := max w.nextClock (greatest (kept.map clock) + 1) } := by
        unfold resumeFile
        rw [scanRecords_take (hfit f₀) (hseq f₀)]
        simp only [ok_bind, openAppend]
        rw [hcontent]
        rfl
      rw [hstep]
      exact hok
    · rw [hfiles f]
      by_cases hf : f ∈ fs
      · rw [if_pos hf, if_pos (mem_cons_of_mem _ hf)]
      · rw [if_neg hf]
        dsimp only
        by_cases hf₀ : f = f₀
        · subst hf₀
          rw [if_pos mem_cons_self, update_self]
        · rw [if_neg (by simp [hf, hf₀]), update_of_ne hf₀]

/-- Reopening succeeds on what a crash leaves, and continues the survivors. -/
lemma openExisting_spec (hord : order.Perm (List.range g.bucketCount))
    (hempty : ∀ f, f ∉ files order → R f = []) (keep : FileId → ℕ) (cutoff : U64) :
    ∃ w, g.openExisting order cutoff (fun f => ((R f).flatMap g.frameOf).take (keep f)) = .ok w ∧
    g.Holds w (g.survivors R keep cutoff) ∧ w.nextClock = Counting.greatest
    (((files order).flatMap (g.survivors R keep cutoff)).map WalRecord.clock) + 1 := by
  have hn : order.Nodup := hord.nodup_iff.2 nodup_range
  obtain ⟨keep', htrunc, hin, hout⟩ := truncateRecords_spec hfit hseq hn cutoff keep
  have hsurv : ∀ f, wholes g.frameOf (keep' f) (R f) = g.survivors R keep cutoff f := by
    intro f
    cases f with
    | markers => rw [hout .markers (by simp)]; rfl
    | bucket b =>
      by_cases hb : b ∈ order
      · exact hin b hb
      · have hR : R (.bucket b) = [] := hempty _ (by simp [files, hb])
        have hnil : g.survivors R keep cutoff (.bucket b) <+: R (.bucket b) := survivors_initial _
        rw [hR] at hnil
        rw [prefix_nil.1 hnil, hR]
        rfl
  obtain ⟨w, hok, hfiles, hclock⟩ := foldlM_resumeFile hfit hseq keep'
    (order.map bucket ++ [markers]) create
  have hperm : (order.map bucket ++ [markers]).Perm (files order) :=
    perm_append_comm
  have hfile : ∀ f, w.files f = ⟨(g.survivors R keep cutoff f).flatMap g.frameOf,
      (g.survivors R keep cutoff f).length + 1, 0⟩ := by
    intro f
    rw [hfiles f, hsurv f]
    split
    · rfl
    · rename_i hf
      have hR : R f = [] := hempty f fun hmem => hf (hperm.mem_iff.2 hmem)
      rw [← hsurv f, hR]
      rfl
  refine ⟨w, ?_, ⟨fun f => ?_, fun f => ?_, fun f => ?_⟩, ?_⟩
  · unfold openExisting
    rw [htrunc]
    exact hok
  · rw [hfile f]
  · rw [hfile f]
  · exact (hseq f).of_initial (survivors_initial f)
  · simp only [hsurv] at hclock
    rw [hclock]
    refine (foldl_max_greatest _ _).trans (congrArg (· + 1) ?_)
    rw [map_flatMap]
    exact greatest_of_perm (hperm.flatMap_right _)

end

/-! ## Reading back -/

variable {rs : List (WalRecord F D M)}

lemma checkClocks_ok {expected : ℕ} : checkClocks expected rs = .ok () ↔
      rs.map WalRecord.clock = List.range' expected rs.length := by
  induction rs generalizing expected with
  | nil => exact iff_of_true rfl rfl
  | cons r rs ih =>
    unfold checkClocks
    rw [map_cons, length_cons, List.range'_succ, List.cons.injEq]
    split
    · rename_i hne
      exact iff_of_false (fun h => nomatch h) fun h => hne h.1
    · rename_i heq
      rw [ih]
      exact ⟨fun h => ⟨not_not.1 heq, h⟩, fun h => h.2⟩

/-- Sorted clocks count when the clocks do, up to order. -/
lemma sortBy_clock_iff :
    (sortBy (compareOn WalRecord.clock) l).map WalRecord.clock = List.range' 1 l.length ↔
      (l.map WalRecord.clock).Perm (List.range' 1 l.length) := by
  have hperm : ((sortBy (compareOn clock) l).map clock).Perm (l.map clock) := (sortBy_perm l).map _
  constructor
  · intro h
    rw [← h]
    exact hperm.symm
  · intro h
    refine (hperm.trans h).eq_of_pairwise' (r := (· ≤ ·)) ?_ pairwise_le_range'
    rw [pairwise_map]
    refine (pairwise_sortBy l).imp fun {a b} hab => ?_
    exact Std.isLE_compare.1 hab

/-- What reading a generation back gives: its records in clock order, when the clocks count. -/
lemma readClockedRecords_ok {w : WalWriter} {E : FileId → List (WalRecord F D M)}
    (h : g.Holds w E) (hfit : ∀ f, g.Fits (E f)) (hpos : ∀ f, ∀ r ∈ E f, 0 < r.clock) :
    g.readClockedRecords order 0 (fun f => (w.files f).content) = .ok rs ↔
      rs = sortBy (compareOn WalRecord.clock) ((files order).flatMap E) ∧
      (((files order).flatMap E).map WalRecord.clock).Perm
        (List.range' 1 ((files order).flatMap E).length) := by
  have hread : ∀ f ∈ files order, g.readFile legacyCheck (w.files f).content =
      .ok (positions g.frameOf 0 (E f), ((E f).flatMap g.frameOf).length) := by
    intro f _
    have hchk : ∀ r ∈ E f, legacyCheck r = none := fun r hr =>
      if_neg (hpos f r hr).ne'
    have hfile := readFile_take (hfit f) hchk (h.seqs f) ((E f).flatMap g.frameOf).length
    rw [take_length, wholes_of_length_le le_rfl] at hfile
    rw [h.content, hfile]
  set all := (files order).flatMap E with hall
  have hrecs : ((files order).map fun f => (positions g.frameOf 0 (E f),
      ((E f).flatMap g.frameOf).length)).flatMap (fun r => r.1.map Prod.snd) = all := by
    rw [flatMap_map]
    exact flatMap_congr fun f _ => positions_map_snd 0 (E f)
  have hfilt : (sortBy (compareOn clock) all).filter (fun r => 0 < r.clock) =
      sortBy (compareOn clock) all := by
    refine filter_eq_self.2 fun r hr => decide_eq_true ?_
    obtain ⟨f, -, hr⟩ := mem_flatMap.1 (mem_sortBy.1 hr)
    exact hpos f r hr
  unfold readClockedRecords
  rw [← files, mapM_ok hread]
  simp only [ok_bind, hrecs, hfilt]
  have hclocks : checkClocks 1 (sortBy (compareOn clock) all) = .ok () ↔
      (all.map clock).Perm (List.range' 1 all.length) := by
    rw [checkClocks_ok, length_sortBy, sortBy_clock_iff]
  rw [bind_ok]
  constructor
  · rintro ⟨_, hc, hrs⟩
    exact ⟨(pure_ok.1 hrs).symm, hclocks.1 hc⟩
  · rintro ⟨rfl, hc⟩
    exact ⟨(), hclocks.2 hc, rfl⟩

/-! ## When everything is read back -/

section

variable {events later : List (Event F D M)} {r : WalRecord F D M}

lemma mem_logged {f : FileId} :
    r ∈ g.logged events f ↔ (f, r) ∈ g.placed 1 (fun _ => 0) events := mem_fileRecords

/-- A clock names one record, in one file. -/
lemma eq_of_clock_eq {f f' : FileId} {r r' : WalRecord F D M} (h : r ∈ g.logged events f)
    (h' : r' ∈ g.logged events f') (hclock : r.clock = r'.clock) : f = f' ∧ r = r' := by
  have hn : ((g.placed 1 (fun _ => 0) events).map fun e => e.2.clock).Nodup := by
    rw [placed_clocks]
    exact nodup_range'
  have := inj_on_of_nodup_map hn (mem_logged.1 h) (mem_logged.1 h') hclock
  exact Prod.mk.inj this

lemma mem_files_of_mem_logged (hord : order.Perm (List.range g.bucketCount)) {f : FileId}
    (h : r ∈ g.logged events f) : f ∈ files order :=
  placed_mem_files hord _ _ _ _ (mem_logged.1 h)

lemma clock_pos_of_mem_logged {f : FileId} (h : r ∈ g.logged events f) : 0 < r.clock := by
  have hmem : r.clock ∈ (g.placed 1 (fun _ => 0) events).map fun e => e.2.clock :=
    mem_map.2 ⟨(f, r), mem_logged.1 h, rfl⟩
  rw [placed_clocks, mem_range'_1] at hmem
  omega

lemma mem_logged_of_mem_survivors {f : FileId}
    (h : r ∈ g.survivors (g.logged events) keep cutoff f) : r ∈ g.logged events f :=
  (survivors_initial f).subset h

lemma nodup_survivor_clocks (hord : order.Perm (List.range g.bucketCount)) :
    (((files order).flatMap (g.survivors (g.logged events) keep cutoff)).map
      WalRecord.clock).Nodup := by
  have hsub : ((files order).flatMap (g.survivors (g.logged events) keep cutoff)).Sublist
      ((files order).flatMap (g.logged events)) := by
    induction files order with
    | nil => exact List.Sublist.slnil
    | cons f fs ih =>
      exact (survivors_initial f).sublist.append ih
  refine List.Nodup.sublist (hsub.map _) ?_
  have hperm := flatMap_fileRecords_perm
    (nodup_files (hord.nodup_iff.2 nodup_range)) (placed_mem_files hord 1 (fun _ => 0) events)
  refine (hperm.map clock).nodup_iff.2 ?_
  rw [map_map]
  have := placed_clocks (g := g) 1 (fun _ => 0) events
  change ((g.placed 1 (fun _ => 0) events).map fun e => e.2.clock).Nodup
  rw [this]
  exact nodup_range'

/-- The survivors' clocks count from one exactly when no lost record is older than one of them. -/
lemma survivor_clocks_iff (hord : order.Perm (List.range g.bucketCount)) :
    (((files order).flatMap (g.survivors (g.logged events) keep cutoff)).map
      WalRecord.clock).Perm (List.range' 1
        ((files order).flatMap (g.survivors (g.logged events) keep cutoff)).length) ↔
      g.ClockClosed events keep cutoff := by
  set S := g.survivors (g.logged events) keep cutoff with hS
  have hmem : ∀ {c}, c ∈ ((files order).flatMap S).map clock ↔ ∃ f, ∃ r ∈ S f, r.clock = c := by
    intro c
    simp only [mem_map, mem_flatMap]
    constructor
    · rintro ⟨r, ⟨f, -, hr⟩, hc⟩
      exact ⟨f, r, hr, hc⟩
    · rintro ⟨f, r, hr, hc⟩
      exact ⟨r, ⟨f, mem_files_of_mem_logged hord (mem_logged_of_mem_survivors hr), hr⟩, hc⟩
  have hpos : ∀ c ∈ ((files order).flatMap S).map clock, 0 < c := by
    intro c hc
    obtain ⟨f, r, hr, rfl⟩ := hmem.1 hc
    exact clock_pos_of_mem_logged (mem_logged_of_mem_survivors hr)
  have hiff := perm_range'_iff (nodup_survivor_clocks hord) hpos
  rw [length_map] at hiff
  rw [hiff]
  constructor
  · intro h f f' r r' hr hr' hlt
    obtain ⟨f'', r'', hr'', hclock⟩ := hmem.1 (h r'.clock (hmem.2 ⟨f', r', hr', rfl⟩) r.clock
      (clock_pos_of_mem_logged hr) hlt)
    obtain ⟨rfl, rfl⟩ := eq_of_clock_eq (mem_logged_of_mem_survivors hr'') hr hclock
    exact hr''
  · intro h c hc d hd hdc
    obtain ⟨f', r', hr', rfl⟩ := hmem.1 hc
    -- every clock up to that of a logged record is the clock of a logged record
    have hlogged : d ∈ (g.placed 1 (fun _ => 0) events).map fun e => e.2.clock := by
      have : r'.clock ∈ (g.placed 1 (fun _ => 0) events).map fun e => e.2.clock :=
        mem_map.2 ⟨(f', r'), mem_logged.1 (mem_logged_of_mem_survivors hr'), rfl⟩
      rw [placed_clocks, mem_range'_1] at this ⊢
      omega
    obtain ⟨⟨f, r⟩, hr, rfl⟩ := mem_map.1 hlogged
    exact hmem.2 ⟨f, r, h f f' r r' (mem_logged.2 hr) hr' hdc, rfl⟩

/-- All records after the scenario's last flush. -/
def recovered (g : Generation F D M) (order : List ℕ) (events : List (Event F D M))
    (keep : FileId → ℕ) (cutoff : U64) (later : List (Event F D M)) : List (WalRecord F D M) :=
  (files order).flatMap (extend (g.survivors (g.logged events) keep cutoff)
    (g.loggedAfter order (g.survivors (g.logged events) keep cutoff) later))

/-- **The scenario fails at the last read only**, and returns the records in clock order. -/
theorem crashAndReadBack_ok (hord : order.Perm (List.range g.bucketCount))
    (hfit : ∀ f, g.Fits (g.logged events f))
    (hfit' : g.Fits ((g.loggedAfter order (g.survivors (g.logged events) keep cutoff)
      later).map Prod.snd)) {rs : List (WalRecord F D M)} :
    g.crashAndReadBack order events keep cutoff later = .ok rs ↔
      rs = sortBy (compareOn WalRecord.clock) (g.recovered order events keep cutoff later) ∧
      ((g.recovered order events keep cutoff later).map WalRecord.clock).Perm
        (List.range' 1 (g.recovered order events keep cutoff later).length) := by
  set S := g.survivors (g.logged events) keep cutoff with hS
  set L := g.loggedAfter order S later with hL
  have hholds : g.Holds (g.run create events) (g.logged events) :=
    (holds_create (g := g)).run events
  obtain ⟨w, hopen, hw, hclock⟩ := openExisting_spec hfit hholds.seqs hord
    (fun f hf => eq_nil_iff_forall_not_mem.2 fun r hr =>
      hf (mem_files_of_mem_logged hord hr)) keep cutoff
  have hend : g.Holds (flush (g.run w later)) (extend S L) := by
    have := (hw.run later).flush
    rw [hclock] at this
    exact this
  have hfitE : ∀ f, g.Fits (extend S L f) := by
    intro f r hr
    rcases mem_append.1 hr with hr | hr
    · exact hfit f r (mem_logged_of_mem_survivors hr)
    · exact hfit' r (mem_map.2 ⟨(f, r), mem_fileRecords.1 hr, rfl⟩)
  have hposE : ∀ f, ∀ r ∈ extend S L f, 0 < r.clock := by
    intro f r hr
    rcases mem_append.1 hr with hr | hr
    · exact clock_pos_of_mem_logged (mem_logged_of_mem_survivors hr)
    · have hmem : r.clock ∈ L.map fun e => e.2.clock :=
        mem_map.2 ⟨(f, r), mem_fileRecords.1 hr, rfl⟩
      rw [hL, loggedAfter, placed_clocks, mem_range'_1] at hmem
      omega
  unfold crashAndReadBack
  simp only [hholds.content]
  rw [hopen]
  exact readClockedRecords_ok hend hfitE hposE

/-- The later records count on from the survivors, so only the survivors' clocks matter. -/
lemma recovered_clocks_iff (hord : order.Perm (List.range g.bucketCount))
    (later : List (Event F D M)) :
    ((g.recovered order events keep cutoff later).map WalRecord.clock).Perm
        (List.range' 1 (g.recovered order events keep cutoff later).length) ↔
      g.ClockClosed events keep cutoff := by
  set S := g.survivors (g.logged events) keep cutoff with hS
  set L := g.loggedAfter order S later with hL
  have hall : (g.recovered order events keep cutoff later).Perm
      ((files order).flatMap S ++ L.map Prod.snd) :=
    (flatMap_append_perm (files order) S (fileRecords L)).symm.trans
      ((flatMap_fileRecords_perm (nodup_files (hord.nodup_iff.2 nodup_range))
        (placed_mem_files hord _ _ _)).append_left _)
  have hmap : ((g.recovered order events keep cutoff later).map clock).Perm
      (((files order).flatMap S).map clock ++ List.range' (greatest
        (((files order).flatMap S).map clock) + 1) L.length) := by
    have hLclocks : L.map (clock ∘ Prod.snd) = List.range' (greatest
        (((files order).flatMap S).map clock) + 1) L.length := placed_clocks _ _ _
    have := hall.map clock
    rwa [map_append, map_map, hLclocks] at this
  have hcnt := append_perm_range'_iff (l := ((files order).flatMap S).map clock) L.length
  rw [length_map] at hcnt
  rw [← survivor_clocks_iff hord, ← hcnt, hall.length_eq, length_append, length_map]
  exact ⟨fun h => hmap.symm.trans h, fun h => hmap.trans h⟩

/-- **Recovery reads everything back exactly when the crash lost no older record.** For every run of
appends and flushes, every crash that keeps at least the synced bytes of each file, every cutoff and
every further run. -/
theorem readsBack_iff (horder : order.Perm (List.range g.bucketCount))
    (hkeep : ∀ f, ((g.run create events).files f).durable ≤ keep f)
    (hfit : ∀ f, g.Fits (g.logged events f))
    (hfit' : g.Fits ((g.loggedAfter order (g.survivors (g.logged events) keep cutoff)
      later).map Prod.snd)) :
    g.ReadsBack order events keep cutoff later ↔ g.ClockClosed events keep cutoff := by
  rw [← recovered_clocks_iff horder later]
  constructor
  · rintro ⟨rs, hok, -⟩
    exact ((crashAndReadBack_ok horder hfit hfit').1 hok).2
  · intro hperm
    have hmem : ∀ f ∈ files order, ∀ r ∈ extend (g.survivors (g.logged events) keep cutoff)
        (g.loggedAfter order (g.survivors (g.logged events) keep cutoff) later) f,
        r ∈ sortBy (compareOn clock) (g.recovered order events keep cutoff later) :=
      fun f hf r hr => mem_sortBy.2 (mem_flatMap.2 ⟨f, hf, hr⟩)
    refine ⟨_, (crashAndReadBack_ok horder hfit hfit').2 ⟨rfl, hperm⟩, ?_, fun f r hr => ?_,
      fun e he => ?_⟩
    · refine (sortBy_perm _).nodup_iff.2 (List.Nodup.of_map clock ?_)
      exact hperm.nodup_iff.2 nodup_range'
    · have hsurv := (uncut_mono (wholes_mono (hkeep f) _)).subset hr
      exact hmem f (mem_files_of_mem_logged horder (mem_logged_of_mem_survivors hsurv)) r
        (mem_append_left _ hsurv)
    · exact hmem e.1 (placed_mem_files horder _ _ _ e he) e.2
        (mem_append_right _ (mem_fileRecords.2 he))

end

/-! ## A delete that outlives an add -/

/-- What is synced is there. -/
lemma durable_run_le {w : WalWriter} (events : List (Event F D M))
    (h : ∀ f, (w.files f).durable ≤ (w.files f).content.length) (f : FileId) :
    ((g.run w events).files f).durable ≤ ((g.run w events).files f).content.length := by
  induction events generalizing w with
  | nil => exact h f
  | cons e events ih =>
    refine ih fun f => ?_
    cases e with
    | flush => exact le_rfl
    | append op forced =>
      change ((g.appendRouted w op forced).files f).durable ≤
        ((g.appendRouted w op forced).files f).content.length
      unfold appendRouted
      split
      · dsimp only
        rw [update_apply]
        split
        · rename_i hf
          have := h f
          rw [hf] at this
          rw [length_append]
          exact this.trans (Nat.le_add_right _ _)
        · exact h f
      · exact h f

/-- A wire encoding of small records, in four bytes. -/
def smallCodec : Codec Unit Unit Unit where
  encode r :=
    match r.op with
    | some (.addVectors id _ _) => [UInt8.ofNat r.seq, UInt8.ofNat r.clock, 0, UInt8.ofNat id.val]
    | some (.deleteDocument id) => [UInt8.ofNat r.seq, UInt8.ofNat r.clock, 1, UInt8.ofNat id.val]
    | _ => []
  decode
    | [seq, clock, 0, id] =>
      some ⟨seq.toNat, clock.toNat, some (.addVectors (ofByte id) [] [])⟩
    | [seq, clock, _, id] => some ⟨seq.toNat, clock.toNat, some (.deleteDocument (ofByte id))⟩
    | _ => none
where
  ofByte (b : UInt8) : U64 := U64.wrap b.toNat

def twoBuckets : Generation Unit Unit Unit := ⟨1, smallCodec, fun _ => true, by norm_num⟩

/-- The id `n`. -/
def idOf (n : ℕ) : U64 := U64.wrap n

/-- Row 3 is flushed; then row 4 is added in the other bucket and, with `deletes`, row 3 deleted. -/
def sampleEvents : List (Event Unit Unit Unit) :=
  [.append (.addVectors (idOf 3) [] []) none, .flush, .append (.addVectors (idOf 4) [] []) none] ++
    if deletes then [.append (.deleteDocument (idOf 3)) none] else []

/-- The crash loses nothing of what was written. -/
def sampleKeep : ℕ :=
  ((twoBuckets.run create (sampleEvents deletes)).files f).content.length

lemma sample_durable :
    ((twoBuckets.run create (sampleEvents deletes)).files f).durable ≤ sampleKeep deletes f :=
  durable_run_le _ (fun _ => le_rfl) f

lemma sample_fits : twoBuckets.Fits (twoBuckets.logged (sampleEvents deletes) f) := by
  have hall : ∀ e ∈ twoBuckets.placed 1 (fun _ => 0) (sampleEvents deletes),
      twoBuckets.codec.decode (twoBuckets.codec.encode e.2) = some e.2 ∧
        (twoBuckets.codec.encode e.2).length < 2 ^ 32 := by
    cases deletes <;> decide +kernel
  intro r hr
  exact hall (f, r) (mem_logged.1 hr)

/-- Without the delete, reopening at the applied tip cuts row 4 and everything else is read back,
the row added again included. -/
theorem readsBack_iff_sample :
    twoBuckets.crashAndReadBack [1, 0] (sampleEvents false) (sampleKeep false) (idOf 4)
        [.append (.addVectors (idOf 4) [] []) none] =
      .ok [⟨1, 1, some (.addVectors (idOf 3) [] [])⟩, ⟨1, 2, some (.addVectors (idOf 4) [] [])⟩] ∧
    (twoBuckets.ReadsBack [1, 0] (sampleEvents false) (sampleKeep false) (idOf 4)
        [.append (.addVectors (idOf 4) [] []) none] ↔
      twoBuckets.ClockClosed (sampleEvents false) (sampleKeep false) (idOf 4)) :=
  ⟨by decide +kernel, readsBack_iff (by decide) (sample_durable false) (sample_fits false)
    (by unfold Fits; decide +kernel)⟩

/-- **The delete outlives the add.** Reopening at the applied tip cuts the add of row 4, whose clock
is 2, and leaves the delete of row 3, whose clock is 3. The read then refuses, with the flushed add
of row 3 in the log. -/
theorem not_readsBack_sample :
    (∀ f, ((twoBuckets.run create (sampleEvents true)).files f).durable ≤ sampleKeep true f) ∧
    (∀ f, twoBuckets.Fits (twoBuckets.logged (sampleEvents true) f)) ∧
    twoBuckets.crashAndReadBack [1, 0] (sampleEvents true) (sampleKeep true) (idOf 4)
        [.append (.addVectors (idOf 4) [] []) none] = .error (.clockGap 2 3) ∧
    ¬ twoBuckets.ReadsBack [1, 0] (sampleEvents true) (sampleKeep true) (idOf 4)
        [.append (.addVectors (idOf 4) [] []) none] := by
  have hread : twoBuckets.crashAndReadBack [1, 0] (sampleEvents true) (sampleKeep true) (idOf 4)
      [.append (.addVectors (idOf 4) [] []) none] = .error (.clockGap 2 3) := by
    decide +kernel
  refine ⟨sample_durable true, sample_fits true, hread, ?_⟩
  rintro ⟨rs, hrs, -⟩
  rw [hread] at hrs
  cases hrs

end ProtomoltSearch.Wal.Generation
