/-
  `Storage.RelationshipOrigin`: where the relationships of a store come from.

  A stored relationship keeps the end points and the type that it was created with, whatever
  else is applied.  So if all creations that are applied have a property of their id, end
  points and type, then so have all the relationships in the store.
-/
import Neo4r.Storage.PartitionNodes

set_option autoImplicit false

namespace Neo4r.Storage

open Foundation KvGraphStore

/-- The id, the end points and the type that a relationship is created with. -/
structure Origin where
  id : Nat
  fromId : Nat
  toId : Nat
  relType : String

/-- What a command creates a relationship with. -/
def originOf : Command → Option Origin
  | .createRelationship id fromId toId relType _ => some ⟨id, fromId, toId, relType⟩
  | _ => none

namespace Contents

variable {c : Contents} {created created' : Origin → Prop}

/-- Each relationship has id, end points and type of a creation. -/
def CreatedBy (c : Contents) (created : Origin → Prop) : Prop :=
  ∀ r relationship, c.relationships r = some relationship →
    created ⟨r, relationship.fromId, relationship.toId, relationship.relType⟩

theorem createdBy_empty : empty.CreatedBy created := fun _ _ h => by cases h

theorem CreatedBy.mono (h : c.CreatedBy created)
    (himp : ∀ origin, created origin → created' origin) : c.CreatedBy created' :=
  fun r rel hr => himp _ (h r rel hr)

theorem CreatedBy.congr {c' : Contents} (h : c.CreatedBy created)
    (hsame : SameRelationshipsIn c c') : c'.CreatedBy created :=
  fun r rel hr => h r rel ((congrFun hsame.relationships r).symm.trans hr)

theorem CreatedBy.putRelationship (h : c.CreatedBy created) {rel : Relationship}
    (hcreated : created ⟨rel.id, rel.fromId, rel.toId, rel.relType⟩)
    (new : List IndexRange) : (c.putRelationship rel new).CreatedBy created := by
  intro r relationship' hr
  rw [relationships_putRelationship] at hr
  split at hr
  · rename_i heq
    cases hr
    exact heq ▸ hcreated
  · exact h r relationship' hr

theorem CreatedBy.dropRelationships (h : c.CreatedBy created) (ids : Set Nat) :
    (c.dropRelationships ids).CreatedBy created :=
  fun r rel hr => h r rel (relationships_dropRelationships.mp hr).2

theorem CreatedBy.dropNode (h : c.CreatedBy created) (id : Nat) (ids : Set Nat) :
    (c.dropNode id ids).CreatedBy created :=
  dropNode_induction (P := fun c => c.CreatedBy created) h fun node =>
    (h.dropRelationships ids).congr (sameRelationshipsIn_eraseNode node)

theorem CreatedBy.apply (h : c.CreatedBy created) (hids : c.IdsMatch) {cmd : Command}
    (hcreated : ∀ origin, originOf cmd = some origin → created origin) :
    (c.apply cmd).CreatedBy created := by
  refine KeptOnRelationships.apply (P := fun c => c.CreatedBy created)
    ⟨fun r hr => ?_, fun id old new hr hsame => ?_,
      fun ids _ => h.dropRelationships ids⟩ CreatedBy.congr h
  · exact h.putRelationship (hcreated _ (by rw [hr]; rfl)) _
  · refine h.putRelationship ?_ []
    rw [hsame.id, hsame.fromId, hsame.toId, hsame.relType, hids.relationship_id hr]
    exact h _ _ hr

end Contents

namespace PartitionedGraphStore

variable {store : PartitionedGraphStore} {created created' : Origin → Prop}

/-- Each relationship of each partition has id, end points and type of a creation. -/
def CreatedBy (store : PartitionedGraphStore) (created : Origin → Prop) : Prop :=
  ∃ parts, store.Parts parts ∧ ∀ i, (parts i).CreatedBy created

theorem CreatedBy.mono (h : store.CreatedBy created)
    (himp : ∀ origin, created origin → created' origin) : store.CreatedBy created' := by
  obtain ⟨parts, hparts, hcreated⟩ := h
  exact ⟨parts, hparts, fun i => (hcreated i).mono himp⟩

theorem CreatedBy.apply (h : store.CreatedBy created) (shard : Nat) {cmd : Command}
    (hcmd : ∀ origin, originOf cmd = some origin → created origin) :
    ∃ store', store.apply shard cmd = .ok store' ∧ store'.CreatedBy created := by
  obtain ⟨parts, hparts, hcreated⟩ := h
  obtain ⟨store', hok, -, hparts'⟩ := hparts.apply shard cmd
  obtain ⟨partition, hget⟩ := store.exists_partition shard
  refine ⟨store', hok, _, hparts', fun i =>
    applyAt_keeps (P := fun c => c.CreatedBy created) (hcreated i) ?_⟩
  rintro rfl
  exact (hcreated _).apply (hparts _ _ hget).idsMatch hcmd

/-- The creations among some commands. -/
def CreatesOnly (created : Origin → Prop) (commands : List Command) : Prop :=
  ∀ command ∈ commands, ∀ origin, originOf command = some origin → created origin

theorem CreatedBy.applyBatch (h : store.CreatedBy created) {cmds : List (Nat × Command)}
    (hcmds : CreatesOnly created (cmds.map Prod.snd)) :
    ∃ store', (PartitionedGraphStore.applyBatch cmds).run store = (.ok (), store') ∧
      store'.CreatedBy created := by
  obtain ⟨parts, hparts, hcreated⟩ := h
  obtain ⟨store', parts', hrun, -, hparts', hcreated'⟩ := hparts.applyBatch_of
    (P := fun _ _ c => c.CreatedBy created) hcreated
    fun {i c done cmd view staged} hdone hids hview => by
      rcases nextView_cases staged view cmd with heq | ⟨id, ids, -, heq⟩
      · rw [heq]
        exact hview.apply hids (hcmds cmd ((List.filter_sublist.map Prod.snd).subset
          (hdone.subset (List.mem_append_right _ (.head _)))))
      · rw [heq]
        exact hview.dropNode id ids
  exact ⟨store', hrun, parts', hparts', hcreated'⟩

theorem CreatedBy.relationships_eq (h : store.CreatedBy created) :
    ∃ list, store.relationships = .ok list ∧ ∀ rel ∈ list,
      created ⟨rel.id, rel.fromId, rel.toId, rel.relType⟩ := by
  obtain ⟨parts, hparts, hcreated⟩ := h
  obtain ⟨lists, hok, hlisted⟩ := hparts.relationships_eq
  refine ⟨_, hok, fun rel hrel => ?_⟩
  obtain ⟨i, hi, hmem⟩ := List.mem_flatMap.mp hrel
  exact hcreated i _ _ (((hlisted i (List.mem_range.mp hi)).1 rel).mp hmem)

end PartitionedGraphStore

end Neo4r.Storage
