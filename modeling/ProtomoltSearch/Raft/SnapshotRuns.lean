import ProtomoltSearch.Raft.Snapshots

/-!
# Runs of builds and installs

After every run of receives, builds, installs, applied entries, starts and ends of the process at any
file operation, the published generation is complete, or there is none, and the store has applied its
position: a start sweeps everything else and serves it (`start_serves_published`).

That holds of the snapshots a node builds itself. Of the id of a received one only the length and the
digest are checked; if its index is another one, the next start refuses the published generation as
data loss (`start_refuses_received`).
-/

namespace ProtomoltSearch.Raft.Snapshots

open Runs Option OrderedMap Snapshots U64

variable {I M G : Type} {F : Files I M} {config : Config G}

/-! ## Complete generations -/

section

variable {dir : Dir I M G} {snapshot : SnapshotMeta M} {signature : ImageSignature} {image : I}

/-- A generation whose meta and image verify. -/
structure Complete (F : Files I M) (config : Config G) (dir : Dir I M G) (snapshot : SnapshotMeta M)
    (signature : ImageSignature) (image : I) : Prop where
  holds : dir.image = some image
  signed : F.imageSignature image = signature
  described : dir.metaFile = some (some (metaToProto config snapshot signature))
  named : snapshot.snapshotId = formatSnapshotId snapshot.lastLogId signature

section

variable [DecidableEq G] (h : Complete F config dir snapshot signature image)

include h

lemma Complete.readGenerationWith {check : Option I → ImageSignature → Except Status Unit}
    (hchk : check (some image) signature = .ok ()) :
    readGenerationWith config (some dir) check = .ok (snapshot, signature) := by
  unfold Snapshots.readGenerationWith
  simp only [bind_some, h.described, h.holds, okOr, ok_bind, metaToProto, ne_eq,
    not_true_eq_false, decide_false, refuseIf_false, signature.sha256.2, dif_pos, hchk, ← h.named]

lemma Complete.readGeneration :
    readGeneration F config (some dir) = .ok (snapshot, signature) := by
  refine h.readGenerationWith ?_
  have hmax : ¬ max < signature.length := by
    have := signature.length.upper
    show ¬ 2 ^ 64 - 1 < _
    omega
  simp [okOr, verifyImage, h.signed, hmax]

lemma Complete.readGenerationByLength :
    readGenerationByLength F config (some dir) = .ok (snapshot, signature) := by
  refine h.readGenerationWith ?_
  simp [okOr, h.signed]

end

end

/-- The published generation, if there is one, is complete and at a position no later than `bound`. -/
def Published (F : Files I M) (config : Config G) (d : Disk I M G) (bound : WithBot U64) : Prop :=
  ∀ generation, d.pointer = some generation → ∃ dir snapshot signature image,
    d.generations.get? generation = some dir ∧ Complete F config dir snapshot signature image ∧
      position snapshot.lastLogId ≤ bound

section

variable {d d' : Disk I M G} {bound bound' : WithBot U64}

lemma Published.mono (h : Published F config d bound) (hle : bound ≤ bound') :
    Published F config d bound' := by
  intro generation hg
  obtain ⟨dir, snapshot, signature, image, hget, hcomp, hbound⟩ := h generation hg
  exact ⟨dir, snapshot, signature, image, hget, hcomp, hbound.trans hle⟩

/-- Only what becomes of the published generation matters. -/
lemma Published.of_get? (h : Published F config d bound) (hptr : d'.pointer = d.pointer)
    (hget : ∀ generation dir, d.pointer = some generation → d.generations.get? generation = some dir →
      d'.generations.get? generation = some dir) : Published F config d' bound := by
  intro generation hg
  rw [hptr] at hg
  obtain ⟨dir, snapshot, signature, image, hdir, hrest⟩ := h generation hg
  exact ⟨dir, snapshot, signature, image, hget generation dir hg hdir, hrest⟩

lemma get?_filter {m : OrderedMap U64 (Dir I M G)} {p : U64 → Bool} {generation : U64}
    {dir : Dir I M G} (hget : m.get? generation = some dir) (hp : p generation = true) :
    (m.filter p).get? generation = some dir :=
  get?_eq_some.2 (mem_filter.2 ⟨get?_eq_some.1 hget, hp⟩)

/-- The kept generation is not touched by a removal of the others, whole or not. -/
lemma get?_leave {generation : U64} {left m : OrderedMap U64 (Dir I M G)} {dir : Dir I M G}
    (hget : m.get? generation = some dir) :
    (leave (some generation) left m).get? generation = some dir := by
  unfold leave
  simp only [bind_some, hget, map_some]
  exact get?_insert_self

lemma Published.swept (h : Published F config d bound) : Published F config d.swept bound :=
  h.of_get? rfl fun _ _ hg hdir => get?_filter hdir (decide_eq_true hg.symm)

/-- The sweep keeps exactly the published generation, and it is served after it. -/
lemma Published.sweep [DecidableEq G] (h : Published F config d (storePosition F d.store)) :
    (sweep F config d).2 = .ok () ∧
      (∀ generation, generation ∈ (sweep F config d).1.generations.keys ↔
        d.pointer = some generation) ∧
      match d.pointer with
      | none => getCurrentSnapshot F config (sweep F config d).1 = .ok none
      | some generation => ∃ dir snapshot image, d.generations.get? generation = some dir ∧
          (sweep F config d).1.generations.get? generation = some dir ∧
          readGeneration F config (some dir) = .ok (snapshot, F.imageSignature image) ∧
          position snapshot.lastLogId ≤ storePosition F d.store ∧
          getCurrentSnapshot F config (sweep F config d).1 = .ok (some (snapshot, image)) := by
  have hkeys : ∀ generation, generation ∈ d.swept.generations.keys ↔
      generation ∈ d.generations.keys ∧ decide (some generation = d.pointer) = true :=
    fun generation => mem_keys_filter
  cases hptr : d.pointer with
  | none =>
    refine ⟨?_, fun generation => ?_, ?_⟩
    · simp only [Snapshots.sweep, hptr]
    · show generation ∈ d.swept.generations.keys ↔ _
      rw [hkeys, hptr]
      simp
    · show getCurrentSnapshot F config d.swept = _
      unfold getCurrentSnapshot
      rw [show d.swept.pointer = none from hptr]
  | some generation =>
    obtain ⟨dir, snapshot, signature, image, hget, hcomp, hbound⟩ := h generation hptr
    have hget' : d.swept.generations.get? generation = some dir :=
      get?_filter hget (decide_eq_true hptr.symm)
    refine ⟨?_, fun g => ?_, dir, snapshot, image, hget, hget', ?_, hbound, ?_⟩
    · simp only [Snapshots.sweep, hptr, hget', hcomp.readGeneration, ok_bind]
      rw [decide_eq_false (not_lt.2 hbound), refuseIf_false]
    · show g ∈ d.swept.generations.keys ↔ _
      rw [hkeys, hptr, decide_eq_true_eq]
      refine ⟨fun h => h.2.symm, fun h => ⟨?_, h.symm⟩⟩
      cases h
      exact mem_keys.2 ⟨dir, get?_eq_some.1 hget⟩
    · rw [hcomp.readGeneration, hcomp.signed]
    · show getCurrentSnapshot F config d.swept = _
      unfold getCurrentSnapshot
      rw [show d.swept.pointer = some generation from hptr]
      simp [hget', hcomp.readGenerationByLength, ok_bind, hcomp.holds, okOr]

end

/-! ## Jobs -/

section

variable {d d' : Disk I M G} {job : Job M}

/-- The position of a snapshot that is being built or installed: a build's is the store's, and an
install is not behind the published generation. -/
def Bounded (F : Files I M) (config : Config G) (d : Disk I M G) (kind : Kind)
    (snapshot : SnapshotMeta M) (image : I) : Prop :=
  match kind with
  | .build => position snapshot.lastLogId ≤ storePosition F d.store
  | .install => Published F config d (position snapshot.lastLogId) ∧
      storePosition F image = position snapshot.lastLogId

/-- **What a build or an install has reached before its next operation.** -/
inductive JobOk (F : Files I M) (config : Config G) (d : Disk I M G) : Job M → Prop
  | createDir {nanos : ℕ} : JobOk F config d ⟨.build, .build nanos, none, none, .createDir⟩
  | copyStore {dir : Scratch} : JobOk F config d ⟨.build, dir, none, none, .copyStore⟩
  | writeMeta {kind : Kind} {dir : Scratch} {content : Dir I M G} {snapshot : SnapshotMeta M}
      {signature : ImageSignature} {image : I} (hscratch : d.scratch dir = some content)
      (himage : content.image = some image) (hsigned : F.imageSignature image = signature)
      (hnamed : snapshot.snapshotId = formatSnapshotId snapshot.lastLogId signature)
      (hbounded : Bounded F config d kind snapshot image) :
      JobOk F config d ⟨kind, dir, some (snapshot, signature), none, .writeMeta⟩
  | intoGeneration {kind : Kind} {dir : Scratch} {content : Dir I M G} {snapshot : SnapshotMeta M}
      {signature : ImageSignature} {image : I} (hscratch : d.scratch dir = some content)
      (hcomplete : Complete F config content snapshot signature image)
      (hbounded : Bounded F config d kind snapshot image) :
      JobOk F config d ⟨kind, dir, some (snapshot, signature), none, .intoGeneration⟩
  | stage {dir : Scratch} {generation : U64} {content : Dir I M G} {snapshot : SnapshotMeta M}
      {signature : ImageSignature} {image : I} (hget : d.generations.get? generation = some content)
      (hcomplete : Complete F config content snapshot signature image)
      (hbounded : Bounded F config d .install snapshot image) (hnew : d.pointer ≠ some generation) :
      JobOk F config d ⟨.install, dir, some (snapshot, signature), some generation, .stage⟩
  | replaceStore {dir : Scratch} {generation : U64} {content : Dir I M G} {snapshot : SnapshotMeta M}
      {signature : ImageSignature} {image : I} (hget : d.generations.get? generation = some content)
      (hcomplete : Complete F config content snapshot signature image)
      (hbounded : Bounded F config d .install snapshot image) (hnew : d.pointer ≠ some generation)
      (hstaged : d.staged = some image) :
      JobOk F config d ⟨.install, dir, some (snapshot, signature), some generation, .replaceStore⟩
  | publish {kind : Kind} {dir : Scratch} {generation : U64} {content : Dir I M G}
      {snapshot : SnapshotMeta M} {signature : ImageSignature} {image : I} {op : Op}
      (hget : d.generations.get? generation = some content)
      (hcomplete : Complete F config content snapshot signature image)
      (hle : position snapshot.lastLogId ≤ storePosition F d.store)
      (hop : op = .writeTmp ∨ op = .movePointer ∧ d.tmp = some (some generation) ∨
        op = .dropOthers ∧ d.pointer = some generation) :
      JobOk F config d ⟨kind, dir, some (snapshot, signature), some generation, op⟩

variable {snapshot : SnapshotMeta M} {image : I}

lemma Bounded.of_eq {kind : Kind} (h : Bounded F config d kind snapshot image)
    (hgens : d'.generations = d.generations) (hptr : d'.pointer = d.pointer)
    (hstore : storePosition F d.store ≤ storePosition F d'.store) :
    Bounded F config d' kind snapshot image := by
  cases kind with
  | build => exact le_trans h hstore
  | install => exact ⟨h.1.of_get? hptr fun _ _ _ hget => hgens ▸ hget, h.2⟩

/-- A job depends on its directory, the generations, the pointer and how far the store is. -/
lemma JobOk.of_eq (h : JobOk F config d job) (hscratch : d'.scratch job.dir = d.scratch job.dir)
    (hgens : d'.generations = d.generations) (hptr : d'.pointer = d.pointer)
    (htmp : d'.tmp = d.tmp) (hstaged : d'.staged = d.staged)
    (hstore : storePosition F d.store ≤ storePosition F d'.store) : JobOk F config d' job := by
  cases h with
  | createDir => exact .createDir
  | copyStore => exact .copyStore
  | writeMeta hdir himage hsigned hnamed hbdd =>
    exact .writeMeta (hscratch.trans hdir) himage hsigned hnamed (hbdd.of_eq hgens hptr hstore)
  | intoGeneration hdir hcomp hbdd =>
    exact .intoGeneration (hscratch.trans hdir) hcomp (hbdd.of_eq hgens hptr hstore)
  | stage hget hcomp hbdd hnew =>
    exact .stage (hgens ▸ hget) hcomp (hbdd.of_eq hgens hptr hstore) (hptr ▸ hnew)
  | replaceStore hget hcomp hbdd hnew himage =>
    exact .replaceStore (hgens ▸ hget) hcomp
      (hbdd.of_eq hgens hptr hstore) (hptr ▸ hnew) (hstaged.trans himage)
  | publish hget hcomp hle hop =>
    refine .publish (hgens ▸ hget) hcomp (hle.trans hstore) ?_
    rw [htmp, hptr]
    exact hop

lemma le_foldl_max (l : List U64) (init : U64) : init ≤ l.foldl max init := by
  induction l generalizing init with
  | nil => exact le_rfl
  | cons x l ih => exact (le_max_left init x).trans (ih _)

variable {generation : U64}

/-- The next generation is not the published one. -/
lemma nextGeneration_ne_pointer (h : nextGeneration d = .ok generation) :
    d.pointer ≠ some generation := by
  intro hptr
  have hadd := ofNat?_eq_some.1 (okOr_ok.1 h)
  have hle := le_iff.1 (le_foldl_max d.generations.keys (d.pointer.getD (wrap 0)))
  rw [hptr, getD_some] at hle hadd
  have hone : (wrap 1).val = 1 := rfl
  omega

/-- What an operation keeps: the published generation stays so, and the job goes on from there. -/
def Goes (F : Files I M) (config : Config G) (job : Job M) (result : Disk I M G × Job M) : Prop :=
  Published F config result.1 (storePosition F result.1.store) ∧ result.2.dir = job.dir ∧
    ∀ op, result.2.kind.after result.2.op = some op →
      JobOk F config result.1 { result.2 with op := op }

lemma setScratch_scratch (d : Disk I M G) (dir : Scratch) (content : Option (Dir I M G)) :
    (d.setScratch dir content).scratch dir = content := Function.update_self ..

lemma setScratch_of_ne {d : Disk I M G} {dir dir' : Scratch} (h : dir' ≠ dir)
    (content : Option (Dir I M G)) : (d.setScratch dir content).scratch dir' = d.scratch dir' :=
  Function.update_of_ne h _ _

variable {result : Disk I M G × Job M} {dir : Scratch}

lemma goes_copyStore (hp : Published F config d (storePosition F d.store))
    (h : copyStore F d ⟨.build, dir, none, none, .copyStore⟩ = .ok result) :
    Goes F config ⟨.build, dir, none, none, .copyStore⟩ result := by
  obtain ⟨applied, happl, membership, -, content, -, h⟩ := bind₃_ok.1 h
  cases h
  refine ⟨hp, rfl, fun op hop => ?_⟩
  obtain rfl := some.inj hop
  refine .writeMeta (setScratch_scratch ..) rfl rfl rfl (le_of_eq ?_)
  show position applied.lastApplied = position ((F.raftApplied d.store).bind Applied.lastApplied)
  rw [okOr_ok.1 happl]
  rfl

variable {content : Dir I M G} {signature : ImageSignature}

lemma goes_intoGeneration {kind : Kind}
    (hp : Published F config d (storePosition F d.store)) (hscratch : d.scratch dir = some content)
    (hcomp : Complete F config content snapshot signature image)
    (hbdd : Bounded F config d kind snapshot image)
    (h : intoGeneration d ⟨kind, dir, some (snapshot, signature), none, .intoGeneration⟩ =
      .ok result) :
    Goes F config ⟨kind, dir, some (snapshot, signature), none, .intoGeneration⟩ result := by
  obtain ⟨generation, hnext, content', hscratch', h⟩ := bind₂_ok.1 h
  obtain rfl := some.inj (hscratch.symm.trans (okOr_ok.1 hscratch'))
  cases h
  have hne := nextGeneration_ne_pointer hnext
  have hkeeps : ∀ {bound : WithBot U64}, Published F config d bound →
      Published F config { d.setScratch dir none with
        generations := d.generations.insert generation content } bound := by
    intro bound hp
    refine hp.of_get? rfl fun g _ hg hget => ?_
    have hg : g ≠ generation := by
      rintro rfl
      exact hne hg
    exact (get?_insert_of_ne hg).trans hget
  refine ⟨hkeeps hp, rfl, fun op hop => ?_⟩
  cases kind with
  | build =>
    obtain rfl := some.inj hop
    exact .publish get?_insert_self hcomp hbdd (.inl rfl)
  | install =>
    obtain rfl := some.inj hop
    exact .stage get?_insert_self hcomp ⟨hkeeps hbdd.1, hbdd.2⟩ hne

lemma goes_replaceStore (hget : d.generations.get? generation = some content)
    (hcomp : Complete F config content snapshot signature image)
    (hbdd : Bounded F config d .install snapshot image) (hstaged : d.staged = some image)
    (h : replaceStore F d ⟨.install, dir, some (snapshot, signature), some generation,
      .replaceStore⟩ = .ok result) :
    Goes F config ⟨.install, dir, some (snapshot, signature), some generation, .replaceStore⟩
      result := by
  obtain ⟨staged, hs, h⟩ := bind_ok.1 h
  obtain rfl := some.inj (hstaged.symm.trans (okOr_ok.1 hs))
  obtain ⟨store, hopened, h⟩ := bind_ok.1 h
  cases h
  -- opening the staged file has kept the position of the image
  have hpos : storePosition F store = position snapshot.lastLogId := by
    rw [← hbdd.2, storePosition, F.raftApplied_opened _ _ (okOr_ok.1 hopened)]
    rfl
  refine ⟨hbdd.1.mono hpos.ge, rfl, fun op hop => ?_⟩
  obtain rfl := some.inj hop
  exact .publish hget hcomp hpos.ge (.inl rfl)

/-- The pointer moves to a complete generation whose position the store has applied. -/
lemma goes_publish {kind : Kind} {op : Op} (hp : Published F config d (storePosition F d.store))
    (hget : d.generations.get? generation = some content)
    (hcomp : Complete F config content snapshot signature image)
    (hle : position snapshot.lastLogId ≤ storePosition F d.store)
    (hop : op = .writeTmp ∨ op = .movePointer ∧ d.tmp = some (some generation) ∨
      op = .dropOthers ∧ d.pointer = some generation)
    (h : exec F config d ⟨kind, dir, some (snapshot, signature), some generation, op⟩ = .ok result) :
    Goes F config ⟨kind, dir, some (snapshot, signature), some generation, op⟩ result := by
  rcases hop with rfl | ⟨rfl, htmp⟩ | ⟨rfl, hptr⟩
  · cases h
    refine ⟨hp, rfl, fun op hop => ?_⟩
    obtain rfl : Op.movePointer = op := by cases kind <;> exact some.inj hop
    exact .publish hget hcomp hle (.inr (.inl ⟨rfl, rfl⟩))
  · obtain ⟨pointer, hptr, h⟩ := bind_ok.1 h
    obtain rfl := some.inj (htmp.symm.trans (okOr_ok.1 hptr))
    cases h
    refine ⟨fun g hg => ?_, rfl, fun op hop => ?_⟩
    · cases hg
      exact ⟨content, snapshot, signature, image, hget, hcomp, hle⟩
    · obtain rfl : Op.dropOthers = op := by cases kind <;> exact some.inj hop
      exact .publish hget hcomp hle (.inr (.inr ⟨rfl, rfl⟩))
  · cases h
    refine ⟨hp.of_get? rfl fun g _ hg hdir => get?_filter hdir ?_, rfl, fun op hop => ?_⟩
    · exact decide_eq_true (hg.symm.trans hptr)
    · cases kind <;> cases hop

/-- An operation keeps the published generation, and what its job has reached. -/
lemma exec_goes
    (hp : Published F config d (storePosition F d.store)) (hjob : JobOk F config d job)
    (h : exec F config d job = .ok result) : Goes F config job result := by
  cases hjob with
  | @createDir nanos =>
    unfold exec at h
    dsimp only at h
    split at h
    · cases h
    · cases h
      refine ⟨hp, rfl, fun op hop => ?_⟩
      obtain rfl := some.inj hop
      exact .copyStore
  | copyStore => exact goes_copyStore hp h
  | @writeMeta kind dir content snapshot signature image hscratch himage hsigned hnamed hbdd =>
    obtain ⟨⟨snapshot', signature'⟩, hpair, h⟩ := bind_ok.1 h
    obtain ⟨rfl, rfl⟩ : snapshot = snapshot' ∧ signature = signature' := by
      simpa using okOr_ok.1 hpair
    obtain ⟨content', hscratch', h⟩ := bind_ok.1 h
    obtain rfl := some.inj (hscratch.symm.trans (okOr_ok.1 hscratch'))
    cases h
    refine ⟨hp, rfl, fun op hop => ?_⟩
    obtain rfl : Op.intoGeneration = op := by cases kind <;> exact some.inj hop
    exact .intoGeneration (setScratch_scratch ..) ⟨himage, hsigned, rfl, hnamed⟩
      (hbdd.of_eq rfl rfl le_rfl)
  | intoGeneration hscratch hcomp hbdd =>
    exact goes_intoGeneration hp hscratch hcomp hbdd h
  | @stage dir generation content snapshot signature image hget hcomp hbdd hnew =>
    obtain ⟨generation', hgen, h⟩ := bind_ok.1 h
    obtain rfl := some.inj (okOr_ok.1 hgen)
    obtain ⟨content', hget', h⟩ := bind_ok.1 h
    obtain rfl := some.inj (hget.symm.trans (okOr_ok.1 hget'))
    obtain ⟨image', himage, h⟩ := bind_ok.1 h
    obtain rfl := some.inj (hcomp.holds.symm.trans (okOr_ok.1 himage))
    cases h
    refine ⟨hp, rfl, fun op hop => ?_⟩
    obtain rfl := some.inj hop
    exact .replaceStore hget hcomp (hbdd.of_eq rfl rfl le_rfl) hnew rfl
  | replaceStore hget hcomp hbdd hnew hstaged =>
    exact goes_replaceStore hget hcomp hbdd hstaged h
  | publish hget hcomp hle hop => exact goes_publish hp hget hcomp hle hop h

/-- What is removed after a refusal is not published. -/
lemma published_cleanup {bound : WithBot U64} (hp : Published F config d bound)
    (hjob : JobOk F config d job) : Published F config (cleanup d job) bound := by
  unfold cleanup
  split
  · exact hp
  · rename_i hkind hop
    refine hp.of_get? rfl fun g _ hg hget => get?_filter hget (decide_eq_true ?_)
    cases hjob with
    | replaceStore _ _ _ hnew _ =>
      rintro heq
      exact hnew (hg.trans heq)
    | publish _ _ _ hpublish =>
      subst hop
      simp at hpublish
    | _ => cases hop
  · exact hp

end

/-! ## Events -/

section

variable {s : Node I M G} {event : Event I M G}

/-- What holds of a node after a run. No receive is, or can begin, in the directory of a job. -/
structure Inv (F : Files I M) (config : Config G) (s : Node I M G) : Prop where
  published : Published F config s.disk (storePosition F s.disk.store)
  job : ∀ job ∈ s.job, JobOk F config s.disk job
  fresh : ∀ job ∈ s.job, ∀ nanos counter, job.dir = .incoming nanos counter → counter < s.counter
  receiving : ∀ receive ∈ s.receiving, ∃ nanos counter,
    receive.dir = .incoming nanos counter ∧ counter < s.counter
  apart : ∀ job ∈ s.job, ∀ receive ∈ s.receiving, receive.dir ≠ job.dir
  idle : s.running = false → s.job = none ∧ s.receiving = none

lemma Inv.of_idle (hp : Published F config s.disk (storePosition F s.disk.store))
    (hjob : s.job = none) (hrecv : s.receiving = none) : Inv F config s := by
  refine ⟨hp, ?_, ?_, ?_, ?_, fun _ => ⟨hjob, hrecv⟩⟩ <;> simp [hjob, hrecv]

section

variable (h : Inv F config s)

include h

/-- A change to a directory no job works in. -/
lemma Inv.setScratch {dir : Scratch} (content : Option (Dir I M G))
    (hdir : ∀ job ∈ s.job, dir ≠ job.dir) {receiving : Option Receive} {counter : ℕ}
    (hcounter : s.counter ≤ counter)
    (hrecv : ∀ receive ∈ receiving, (∃ nanos n, receive.dir = .incoming nanos n ∧ n < counter) ∧
      ∀ job ∈ s.job, receive.dir ≠ job.dir)
    (hidle : s.running = false → receiving = none) :
    Inv F config { s with
      disk := s.disk.setScratch dir content, receiving := receiving, counter := counter } where
  published := h.published
  job job hjob := (h.job job hjob).of_eq (setScratch_of_ne (hdir job hjob).symm _) rfl rfl rfl rfl
    le_rfl
  fresh job hjob nanos n hn := (h.fresh job hjob nanos n hn).trans_le hcounter
  receiving receive hr := (hrecv receive hr).1
  apart job hjob receive hr := (hrecv receive hr).2 job hjob
  idle hr := ⟨(h.idle hr).1, hidle hr⟩

lemma Inv.discard : Inv F config s.discard := by
  unfold Node.discard
  split
  · exact h
  · rename_i receive hr
    exact h.setScratch none (fun job hjob => h.apart job hjob receive hr) le_rfl nofun fun _ => rfl

lemma Inv.begin (hrunning : s.running = true) (nanos : ℕ) (empty : I) :
    Inv F config (s.begin nanos empty) := by
  have hd := h.discard
  have hnone : s.discard.receiving = none := by
    unfold Node.discard
    split
    · assumption
    · rfl
  have hrun' : s.discard.running = true := by
    unfold Node.discard
    split <;> exact hrunning
  unfold Node.begin
  dsimp only
  split
  · refine ⟨hd.published, hd.job, fun job hjob nanos n hn => ?_, ?_, ?_, hd.idle⟩
    · exact (hd.fresh job hjob nanos n hn).trans (Nat.lt_succ_self _)
    · rw [hnone]
      exact nofun
    · rw [hnone]
      exact fun _ _ => nofun
  · have hfresh : ∀ job ∈ s.discard.job, Scratch.incoming nanos s.discard.counter ≠ job.dir :=
      fun job hjob heq => absurd (hd.fresh job hjob _ _ heq.symm) (Nat.lt_irrefl _)
    refine hd.setScratch _ hfresh (Nat.le_succ _) (fun receive hr => ?_)
      fun hr => absurd (hrun'.symm.trans hr) (by simp)
    cases hr
    exact ⟨⟨nanos, _, rfl, Nat.lt_succ_self _⟩, hfresh⟩

lemma Inv.step : Inv F config (s.step F config) := by
  unfold Node.step
  split
  · exact h
  · rename_i job hjob
    split
    · have hp := published_cleanup h.published (h.job job hjob)
      have hstore : (cleanup s.disk job).store = s.disk.store := by
        unfold cleanup
        split <;> rfl
      exact ⟨hstore ▸ hp, nofun, nofun, h.receiving, nofun, fun hr => ⟨rfl, (h.idle hr).2⟩⟩
    · rename_i disk job' hexec
      obtain ⟨hp, hdir, hnext⟩ := exec_goes h.published (h.job job hjob) hexec
      have hop : ∀ job'' ∈ (job'.kind.after job'.op).map fun op => { job' with op := op },
          JobOk F config disk job'' ∧ job''.dir = job.dir := by
        intro job'' hjob''
        obtain ⟨op, hop, rfl⟩ := map_eq_some_iff.1 hjob''
        exact ⟨hnext op hop, hdir⟩
      refine ⟨hp, fun job'' hj => (hop job'' hj).1, fun job'' hj nanos n hn => ?_, h.receiving,
        fun job'' hj receive hr => ?_, fun hr => ?_⟩
      · rw [(hop job'' hj).2] at hn
        exact h.fresh job hjob nanos n hn
      · rw [(hop job'' hj).2]
        exact h.apart job hjob receive hr
      · rw [(h.idle hr).1] at hjob
        cases hjob

lemma Inv.crash (torn : Torn I M G) : Published F config (interrupted s.disk torn s.job)
      (storePosition F (interrupted s.disk torn s.job).store) := by
  unfold interrupted
  split
  · exact h.published
  · rename_i job hjob
    split
    · exact h.published
    · exact h.published
    · exact h.published
    · rename_i hop
      refine h.published.of_get? rfl fun g dir hg hget => ?_
      -- the others are dropped once the pointer is at the generation
      cases h.job job hjob with
      | publish _ _ _ hpublish =>
        subst hop
        rcases hpublish with hop | ⟨hop, -⟩ | ⟨-, hptr⟩
        · cases hop
        · cases hop
        · cases hg.symm.trans hptr
          exact get?_leave hget
      | _ => cases hop
    · exact h.published

end

/-- The id of an installed snapshot is the one a build gives it. -/
def Named (_ : Node I M G) : Event I M G → Prop
  | .install snapshot => ∀ signature, parseSnapshotId snapshot.snapshotId = .ok signature →
      snapshot.snapshotId = formatSnapshotId snapshot.lastLogId signature
  | _ => True

variable [DecidableEq M]

/-- The library's contract. Entries move the store's position forward; an install is handed the
meta its receive was validated with, and is not behind the store. -/
def Contract (F : Files I M) (config : Config G) (s : Node I M G) : Event I M G → Prop
  | .store image => storePosition F s.disk.store ≤ storePosition F image
  | .install snapshot =>
    (∀ receive ∈ s.receiving, receive.verified = some snapshot.snapshotId →
      ∃ signature, verify F config (s.receivedImage receive) snapshot = .ok signature) ∧
      storePosition F s.disk.store ≤ position snapshot.lastLogId
  | _ => True

lemma verify_ok {image : Option I} {snapshot : SnapshotMeta M} {signature : ImageSignature}
    (h : verify F config image snapshot = .ok signature) :
    parseSnapshotId snapshot.snapshotId = .ok signature ∧ ∃ content, image = some content ∧
      F.imageSignature content = signature ∧
        storePosition F content = position snapshot.lastLogId := by
  obtain ⟨signature', hparse, _, -, content, himage, h⟩ := bind₃_ok.1 h
  obtain ⟨_, hverify, probe, hopened, applied, happl, h⟩ := bind₃_ok.1 h
  obtain ⟨_, hpos, membership, -, _, -, h⟩ := bind₃_ok.1 h
  cases h
  obtain ⟨_, _, hverify⟩ := rest₂_ok hverify
  refine ⟨hparse, content, okOr_ok.1 himage, by simpa using hverify, ?_⟩
  have hlast : applied.lastApplied = snapshot.lastLogId := by simpa using hpos
  rw [storePosition, ← F.raftApplied_opened _ _ (okOr_ok.1 hopened), okOr_ok.1 happl,
    bind_some, hlast]

lemma Inv.install (h : Inv F config s) (hrunning : s.running = true) {snapshot : SnapshotMeta M}
    (hc : Contract F config s (.install snapshot)) (hn : Named s (.install snapshot)) :
    Inv F config (s.install F config snapshot) := by
  obtain ⟨hverified, hfwd⟩ := hc
  unfold Node.install
  split
  · rename_i receive hjob hr
    split
    · exact h.discard
    · rename_i signature hsig
      -- the receive was validated with this meta, here or by the transport
      have hverify : verify F config (s.receivedImage receive) snapshot = .ok signature := by
        unfold Node.installSignature at hsig
        split at hsig
        · rename_i hid
          obtain ⟨signature', hverify⟩ := hverified receive hr hid
          rw [(verify_ok hverify).1] at hsig
          rw [hverify, hsig]
        · exact hsig
      obtain ⟨hparse, image, himage, hsigned, hpos⟩ := verify_ok hverify
      obtain ⟨content, hscratch, himage⟩ := bind_eq_some_iff.1 himage
      obtain ⟨nanos, counter, hdir, hlt⟩ := h.receiving receive hr
      refine ⟨h.published, fun job hjob => ?_, fun job hjob nanos n hn => ?_, nofun, fun _ _ => nofun,
        fun hr => absurd (hrunning.symm.trans hr) (by simp)⟩
      · cases hjob
        exact .writeMeta hscratch himage hsigned (hn signature hparse) ⟨h.published.mono hfwd, hpos⟩
      · cases hjob
        rw [show receive.dir = .incoming nanos n from hn] at hdir
        cases hdir
        exact hlt
  · exact h

variable [DecidableEq G]

/-- **Every event keeps the published generation.** -/
theorem Inv.next (h : Inv F config s) (hc : Contract F config s event) (hn : Named s event) :
    Inv F config (Snapshots.next F config s event) := by
  cases event with
  | begin nanos empty =>
    dsimp only [next]
    split
    · rename_i hrunning
      exact h.begin hrunning nanos empty
    · exact h
  | write image =>
    dsimp only [next]
    split
    · rename_i dir hr
      refine h.setScratch _ (fun job hjob => h.apart job hjob _ hr) le_rfl (fun receive hr' => ?_)
        fun hrunning => (h.idle hrunning).2
      exact ⟨h.receiving receive hr', fun job hjob => h.apart job hjob receive hr'⟩
    · exact h
  | verify snapshot =>
    dsimp only [next]
    split
    · exact h
    · rename_i receive hr
      split
      · exact h.discard
      · refine ⟨h.published, h.job, h.fresh, fun receive' hr' => ?_, fun job hjob receive' hr' => ?_,
          fun hrunning => ?_⟩
        · cases hr'
          exact h.receiving receive hr
        · cases hr'
          exact h.apart job hjob receive hr
        · rw [(h.idle hrunning).2] at hr
          cases hr
  | discard => exact h.discard
  | install snapshot =>
    dsimp only [next]
    split
    · rename_i hrunning
      exact h.install hrunning hc hn
    · exact h
  | build nanos =>
    dsimp only [next]
    split
    · rename_i hrunning _
      refine ⟨h.published, fun job hjob => ?_, fun job hjob nanos n hn => ?_, h.receiving,
        fun job hjob receive hr heq => ?_, fun hr => absurd (hrunning.symm.trans hr) (by simp)⟩
      · cases hjob
        exact .createDir
      · cases hjob
        cases hn
      · cases hjob
        obtain ⟨nanos, n, hdir, -⟩ := h.receiving receive hr
        rw [hdir] at heq
        cases heq
    · exact h
  | step => exact h.step
  | store image =>
    exact ⟨h.published.mono hc, fun job hjob => (h.job job hjob).of_eq rfl rfl rfl rfl rfl hc,
      h.fresh, h.receiving, h.apart, h.idle⟩
  | crash torn => exact ⟨h.crash torn, nofun, nofun, nofun, nofun, fun _ => ⟨rfl, rfl⟩⟩
  | start =>
    dsimp only [next]
    split
    · exact h
    · rename_i hrunning
      obtain ⟨hjob, hrecv⟩ := h.idle (Bool.eq_false_iff.2 hrunning)
      exact Inv.of_idle h.published.swept hjob hrecv
  | startInterrupted torn =>
    dsimp only [next]
    split
    · exact h
    · rename_i hrunning
      obtain ⟨hjob, hrecv⟩ := h.idle (Bool.eq_false_iff.2 hrunning)
      refine Inv.of_idle (h.published.of_get? rfl fun g dir hg hget => ?_) hjob hrecv
      rw [hg]
      exact get?_leave hget

/-- **Every start serves the published generation.** After every run in which the library keeps its
contract and every installed snapshot has the id a build gives it, with the process ending at any file
operation: the next start's sweep succeeds and keeps exactly the published generation, which verifies,
is not ahead of the store and is then served. Without one none is served. -/
theorem start_serves_published (F : Files I M) (config : Config G) (store : I)
    (events : List (Event I M G))
    (h : Meets (next F config) (fun s event => Contract F config s event ∧ Named s event)
      (.create store) events) :
    let d := (run (next F config) (.create store) events).disk
    (sweep F config d).2 = .ok () ∧
      (∀ generation, generation ∈ (sweep F config d).1.generations.keys ↔
        d.pointer = some generation) ∧
      match d.pointer with
      | none => getCurrentSnapshot F config (sweep F config d).1 = .ok none
      | some generation => ∃ dir snapshot image, d.generations.get? generation = some dir ∧
          (sweep F config d).1.generations.get? generation = some dir ∧
          readGeneration F config (some dir) = .ok (snapshot, F.imageSignature image) ∧
          position snapshot.lastLogId ≤ storePosition F d.store ∧
          getCurrentSnapshot F config (sweep F config d).1 = .ok (some (snapshot, image)) := by
  have hinv : Inv F config (run (next F config) (.create store) events) :=
    run_history (I := fun _ => Inv F config) (Inv.of_idle (fun _ hg => nomatch hg) rfl rfl)
      (fun _ _ hinv hevent => hinv.next hevent.1 hevent.2) h
  exact hinv.published.sweep

end

/-! ## Samples -/

section

/-- Stores that are only the index they have applied. -/
def indexFiles : Files ℕ Unit where
  imageSignature index := ⟨wrap index, List.replicate 32 0, rfl⟩
  raftApplied index := some ⟨some ⟨wrap 1, wrap 1, wrap index⟩, some ()⟩
  opened index := some index
  raftApplied_opened _ _ h := by rw [Option.some.inj h]

def sampleConfig : Config Unit := ⟨(), wrap 100⟩

/-- A snapshot at index 7 under an id that names an index. -/
def snapshotNamed (index : ℕ) : SnapshotMeta Unit where
  lastLogId := some ⟨wrap 1, wrap 1, wrap 7⟩
  lastMembership := ()
  snapshotId := formatSnapshotId (some ⟨wrap 1, wrap 1, wrap index⟩)
    (indexFiles.imageSignature 7)

def nothingLeft : Torn ℕ Unit Unit := ⟨none, none, fun _ => none, .empty⟩

/-- The image of a store at index 7 is received and installed, as far as a number of operations. -/
def installs (snapshot : SnapshotMeta Unit) (steps : ℕ) : List (Event ℕ Unit Unit) :=
  [.start, .begin 0 0, .write 7, .verify snapshot, .install snapshot] ++
    List.replicate steps .step ++ [.crash nothingLeft]

/-- A build at index 3, and an install that ends after the store is replaced. -/
def buildsAndInstalls : List (Event ℕ Unit Unit) :=
  [.start, .store 3, .build 0] ++ List.replicate 7 .step ++
    [.begin 0 0, .write 7, .verify (snapshotNamed 7), .install (snapshotNamed 7)] ++
    List.replicate 4 .step ++ [.crash nothingLeft]

instance (x : Except Status ImageSignature) : Decidable (∃ signature, x = .ok signature) :=
  match x with
  | .ok signature => isTrue ⟨signature, rfl⟩
  | .error _ => isFalse nofun

instance (x : Except Status ImageSignature) (p : ImageSignature → Prop) [DecidablePred p] :
    Decidable (∀ signature, x = .ok signature → p signature) :=
  match x with
  | .ok signature => decidable_of_iff (p signature)
      ⟨fun h _ heq => Except.ok.inj heq ▸ h, fun h => h signature rfl⟩
  | .error _ => isTrue nofun

instance (s : Node ℕ Unit Unit) : ∀ event : Event ℕ Unit Unit, Decidable (Named s event)
  | .install _ => inferInstanceAs (Decidable (∀ _, _ → _))
  | .store _ | .begin _ _ | .write _ | .verify _ | .discard | .build _ | .step | .crash _ | .start
  | .startInterrupted _ => isTrue trivial

instance (s : Node ℕ Unit Unit) : ∀ event, Decidable (Contract indexFiles sampleConfig s event)
  | .store _ => inferInstanceAs (Decidable (_ ≤ _))
  | .install _ => inferInstanceAs (Decidable ((∀ receive ∈ s.receiving, _ → ∃ _, _) ∧ _))
  | .begin _ _ | .write _ | .verify _ | .discard | .build _ | .step | .crash _ | .start
  | .startInterrupted _ => isTrue trivial

theorem start_serves_published_replaced : (sweep indexFiles sampleConfig
      (run (next indexFiles sampleConfig) (.create 0) buildsAndInstalls).disk).2 = .ok () :=
  (start_serves_published indexFiles sampleConfig 0 buildsAndInstalls (by decide +kernel)).1

/-- **A received snapshot can be published that the next start refuses**: its id names index 8. -/
theorem start_refuses_received :
    Meets (next indexFiles sampleConfig) (Contract indexFiles sampleConfig) (.create 0)
        (installs (snapshotNamed 8) 7) ∧
      (sweep indexFiles sampleConfig (run (next indexFiles sampleConfig) (.create 0)
        (installs (snapshotNamed 8) 7)).disk).2 =
          .error (.dataLoss "snapshot meta id differs from its image") := by
  decide +kernel

end

end ProtomoltSearch.Raft.Snapshots
