import ProtomoltSearch.Reshard.Replay

/-!
# Building a child

A child image is built from its share of a replay (`finish_child` and `build_child` of
`reshard.rs`): the hidden rows are dropped, the vector rows take the first slots in id order and
the document-only rows follow. What the vector provider, the analyzer and the file formats refuse is
a parameter of the build.
-/

namespace ProtomoltSearch.Reshard

open Wal List OrderedMap

/-- A generation as a split reads it: its manifest, its bucket files and its markers. The backend
configuration is absent when it does not decode. -/
structure Log (F D M C : Type) where
  generation : U64
  bucketBits : ℕ
  collection : String
  dim : ℕ
  backendConfig : Option C
  preexistingVectors : ℕ
  preexistingDocuments : ℕ
  file : ℕ → List (WalRecord F D M)
  markers : List (WalRecord F D M)
  bucketBits_le : bucketBits ≤ 31

def Log.bucketCount {F D M C : Type} (l : Log F D M C) : ℕ := 2 ^ l.bucketBits

/-- What a split runs in: whether the build checks overflow, which provider states fit a dimension,
why a binding is refused, and why encoding a child's rows fails. -/
structure Env (F D M C : Type) where
  checks : Bool
  usable : ℕ → C → Bool
  badBinding : M → Option String
  encode : Log F D M C → Option M → List (U64 × List F) → List (U64 × D) → Option String

/-- One built shard image: the rows its files hold, its slots and its hash range. -/
structure ChildImage (F D : Type) where
  vectors : List (U64 × List F)
  documents : List (U64 × D)
  slotOffset : U64
  hashLo : U64
  hashHi : U64
  parentIds : List U64
  rowParentIds : List U64

variable {F D M C : Type}

section

variable (env : Env F D M C) (log : Log F D M C) (binding : Option M)

/-- The slot order of a replay: vector rows, then the document-only rows. -/
def childOrder (r : Replay F D) : List U64 :=
  r.vectors.keys ++ r.documents.keys.filter fun id => id ∉ r.vectors.keys

def buildChild
    (vectors : List (U64 × List F)) (documents : List (U64 × D)) : Outcome (ChildImage F D) :=
  match env.encode log binding vectors documents with
  | some reason => refuse (.build reason)
  | none =>
    let parentIds := vectors.map Prod.fst
    .ok
      { vectors, documents, parentIds
        slotOffset := U64.wrap 0
        hashLo := U64.wrap 0
        hashHi := U64.wrap 0
        rowParentIds := parentIds ++ (documents.map Prod.fst).filter fun id => id ∉ parentIds }

/-- The rows taken so far and what is left of the replay. -/
structure Taking (F D : Type) where
  left : Replay F D
  vectors : List (U64 × List F)
  documents : List (U64 × D)

def Taking.take (st : Taking F D) (id : U64) : Taking F D where
  left :=
    { st.left with
      vectors := st.left.vectors.erase id
      documents := st.left.documents.erase id }
  vectors := st.vectors ++ ((st.left.vectors.get? id).map (id, ·)).toList
  documents := st.documents ++ ((st.left.documents.get? id).map (id, ·)).toList

def finishChildOrdered (replay : Replay F D) (order : List U64) (ordinal : ℕ)
    (slotOffset hashLo hashHi : U64) : Outcome (ChildImage F D) := do
  let taken := order.foldl Taking.take ⟨replay.compact, [], []⟩
  refuseIf (decide (taken.left.vectors.entries ≠ [] ∨ taken.left.documents.entries ≠ []))
    (.refused (.slotOrder ordinal))
  let child ← buildChild env log binding taken.vectors taken.documents
  pure { child with slotOffset, hashLo, hashHi }

def finishChild (replay : Replay F D)
    (ordinal : ℕ) (slotOffset hashLo hashHi : U64) : Outcome (ChildImage F D) :=
  finishChildOrdered env log binding replay.compact (childOrder replay.compact) ordinal slotOffset
    hashLo hashHi

def orderedDocuments (r : Replay F D) : List (U64 × D) :=
  (childOrder r).filterMap fun id => (r.documents.get? id).map (id, ·)

/-- The image of a replay with nothing hidden. -/
def imageOf (r : Replay F D) (slotOffset hashLo hashHi : U64) : ChildImage F D where
  vectors := r.vectors.entries
  documents := orderedDocuments r
  slotOffset := slotOffset
  hashLo := hashLo
  hashHi := hashHi
  parentIds := r.vectors.keys
  rowParentIds := childOrder r

end

section

variable {r : Replay F D}

lemma mem_childOrder {id : U64} :
    id ∈ childOrder r ↔ id ∈ r.vectors.keys ∨ id ∈ r.documents.keys := by
  simp only [childOrder, mem_append, mem_filter, decide_eq_true_eq]
  tauto

lemma nodup_childOrder : (childOrder r).Nodup := by
  refine List.Nodup.append r.vectors.nodup_keys (r.documents.nodup_keys.filter _) ?_
  intro id hv hd
  exact of_decide_eq_true (mem_filter.1 hd).2 hv

lemma mem_orderedDocuments {id : U64} {d : D} :
    (id, d) ∈ orderedDocuments r ↔ (id, d) ∈ r.documents.entries := by
  rw [← get?_eq_some]
  simp only [orderedDocuments, mem_filterMap, Option.map_eq_some_iff, Prod.mk.injEq]
  constructor
  · rintro ⟨id', -, d', hget, rfl, rfl⟩
    exact hget
  · intro hget
    have hkey := mem_keys.2 ⟨d, get?_eq_some.1 hget⟩
    exact ⟨id, mem_childOrder.2 (.inr hkey), d, hget, rfl, rfl⟩

/-- The documents that have no vector, in id order, are the tail of the slot order. -/
lemma filter_orderedDocuments :
    ((orderedDocuments r).map Prod.fst).filter (fun id => id ∉ r.vectors.keys) =
      r.documents.keys.filter fun id => id ∉ r.vectors.keys := by
  have hfst : (orderedDocuments r).map Prod.fst =
      (childOrder r).filter fun id => id ∈ r.documents.keys := by
    rw [orderedDocuments, map_filterMap, ← filterMap_eq_filter]
    refine filterMap_congr fun id _ => ?_
    cases hget : r.documents.get? id with
    | none => simp [Option.guard, get?_eq_none.1 hget]
    | some d =>
      have : id ∈ r.documents.keys := mem_keys.2 ⟨d, get?_eq_some.1 hget⟩
      simp [Option.guard, this]
  rw [hfst, childOrder, filter_append, filter_append]
  have hnil : ((r.vectors.keys.filter fun id => id ∈ r.documents.keys).filter
      fun id => id ∉ r.vectors.keys) = [] := by
    simp only [filter_eq_nil_iff, mem_filter, decide_eq_true_eq, not_not]
    exact fun id h => h.1
  rw [hnil, filter_filter, filter_filter]
  refine filter_congr fun id hid => ?_
  simp [hid]

end

/-- Taking the rows of distinct ids: each id's rows in order, and the other ids are left. -/
lemma foldl_take {order : List U64} (hnd : order.Nodup) (st : Taking F D) :
    (order.foldl Taking.take st).vectors =
        st.vectors ++ order.filterMap (fun id => (st.left.vectors.get? id).map (id, ·)) ∧
      (order.foldl Taking.take st).documents =
        st.documents ++ order.filterMap (fun id => (st.left.documents.get? id).map (id, ·)) ∧
      (∀ e, e ∈ (order.foldl Taking.take st).left.vectors.entries ↔
        e ∈ st.left.vectors.entries ∧ e.1 ∉ order) ∧
      ∀ e, e ∈ (order.foldl Taking.take st).left.documents.entries ↔
        e ∈ st.left.documents.entries ∧ e.1 ∉ order := by
  induction order generalizing st with
  | nil => simp
  | cons id order ih =>
    obtain ⟨hid, hnd⟩ := nodup_cons.1 hnd
    obtain ⟨hv, hd, hlv, hld⟩ := ih hnd (st.take id)
    rw [foldl_cons]
    refine ⟨?_, ?_, fun e => ?_, fun e => ?_⟩
    · rw [hv, ← lookup_erase hid, ← append_assoc]
      rfl
    · rw [hd, ← lookup_erase hid, ← append_assoc]
      rfl
    · rw [hlv, Taking.take, mem_erase, mem_cons]
      tauto
    · rw [hld, Taking.take, mem_erase, mem_cons]
      tauto

lemma compact_compact (r : Replay F D) : r.compact.compact = r.compact := by
  unfold Replay.compact
  simp [OrderedMap.filter_eq_self]

/-- **A finished child is the image of its live rows**, unless they cannot be encoded. -/
theorem finishChild_eq (env : Env F D M C) (log : Log F D M C) (binding : Option M)
    (r : Replay F D) (ordinal : ℕ) (slotOffset hashLo hashHi : U64) :
    finishChild env log binding r ordinal slotOffset hashLo hashHi =
      match env.encode log binding r.compact.vectors.entries (orderedDocuments r.compact) with
      | some reason => refuse (.build reason)
      | none => .ok (imageOf r.compact slotOffset hashLo hashHi) := by
  obtain ⟨hv, hd, hlv, hld⟩ := foldl_take nodup_childOrder ⟨r.compact, [], []⟩
  -- every id of the replay has a slot, so nothing is left over
  have hleft : ¬((List.foldl Taking.take ⟨r.compact, [], []⟩
      (childOrder r.compact)).left.vectors.entries ≠ [] ∨ (List.foldl Taking.take
      ⟨r.compact, [], []⟩ (childOrder r.compact)).left.documents.entries ≠ []) := by
    rintro (h | h)
    · obtain ⟨e, he⟩ := exists_mem_of_ne_nil _ h
      obtain ⟨hmem, hno⟩ := (hlv e).1 he
      exact hno (mem_childOrder.2 (.inl (mem_map_of_mem hmem)))
    · obtain ⟨e, he⟩ := exists_mem_of_ne_nil _ h
      obtain ⟨hmem, hno⟩ := (hld e).1 he
      exact hno (mem_childOrder.2 (.inr (mem_map_of_mem hmem)))
  have hvecs : (childOrder r.compact).filterMap
      (fun id => (r.compact.vectors.get? id).map (id, ·)) = r.compact.vectors.entries := by
    rw [childOrder, filterMap_append, filterMap_get?_keys]
    refine (append_right_eq_self).2 (filterMap_eq_nil_iff.2 fun id hid => ?_)
    rw [get?_eq_none.2 (of_decide_eq_true (mem_filter.1 hid).2), Option.map_none]
  rw [hvecs] at hv
  rw [finishChild, finishChildOrdered, compact_compact, decide_eq_false hleft, hv, hd]
  change buildChild env log binding r.compact.vectors.entries (orderedDocuments r.compact) >>= _ = _
  unfold buildChild
  split
  · rfl
  · rw [imageOf]
    rw [childOrder, ← filter_orderedDocuments]
    rfl

end ProtomoltSearch.Reshard
