/-
  `Server.Tenants`: the catalog of tenant databases and their data
  (`neo4r-server/src/tenant.rs`).

  Every change of the catalog reads all of it and writes all of it anew: first each record is
  deleted, then each is put.  A catalog without records is taken from a text file instead.
  The data of a database is in a directory of its name, which no change of the catalog
  touches.
-/
import Neo4r.Foundation.FiniteMap
import Neo4r.Foundation.Machine

set_option autoImplicit false

namespace Neo4r.Server

open Foundation FiniteMap Function

/-- `DEFAULT_DATABASE`. -/
def defaultDatabase : String := "default"

/-- `validate_database_name`. -/
def validateDatabaseName (name : String) : Except String Unit :=
  if name.utf8ByteSize = 0 ∨ 64 < name.utf8ByteSize then
    .error "database name must be 1..64 characters"
  else if name = "." ∨ name = ".." ∨ name = "system" then
    .error "database name cannot be a relative path segment"
  else if !name.toList.all fun c => c.isAlphanum || c == '_' || c == '-' then
    .error "database name must contain only ASCII letters, digits, '_' or '-'"
  else .ok ()

/-- The records of the catalog by their names, each with its mark as disabled. -/
abbrev Catalog := FiniteMap String Bool

/-- `create_database` of a database that is not open, and the other changes of the catalog. -/
inductive CatalogUpdate
  | createDatabase (name : String)
  | enableDatabase (name : String)
  | disableDatabase (name : String)
  | deleteDatabase (name : String)

namespace CatalogUpdate

/-- The database that is changed. -/
def name : CatalogUpdate → String
  | createDatabase name | enableDatabase name | disableDatabase name | deleteDatabase name => name

/-- The mark that its record is to have; none for no record. -/
def disabled : CatalogUpdate → Option Bool
  | createDatabase _ | enableDatabase _ => some false
  | disableDatabase _ => some true
  | deleteDatabase _ => none

/-- The records that are to be saved, if the update comes to that. -/
def run (update : CatalogUpdate) (catalog : Catalog) : Except String (Option Catalog) := do
  validateDatabaseName update.name
  match update with
  | createDatabase name =>
      if name = defaultDatabase then return none
      return some (catalog.insert name false)
  | enableDatabase name | disableDatabase name =>
      if name = defaultDatabase then .error "default database lifecycle cannot be changed"
      else match catalog.get name, update.disabled with
        | some _, some disabled => return some (catalog.insert name disabled)
        | _, _ => .error s!"unknown database {name.quote}"
  | deleteDatabase name =>
      if name = defaultDatabase then .error "default database cannot be deleted"
      else match catalog.get name with
        | none => .error s!"unknown database {name.quote}"
        | some false => .error s!"database {name.quote} must be disabled before delete"
        | some true => return some (catalog.erase name)

/-- An update changes one record, and not that of the default database. -/
theorem get_of_run {update : CatalogUpdate} {catalog after : Catalog}
    (h : update.run catalog = .ok (some after)) : update.name ≠ defaultDatabase ∧
      (∀ name, after.get name = if name = update.name then update.disabled else catalog.get name) ∧
      (update.disabled = none → catalog.get update.name = some true) := by
  unfold run at h
  cases hvalid : validateDatabaseName update.name with
  | error => simp [hvalid, bind, Except.bind] at h
  | ok =>
    simp only [hvalid, bind, Except.bind] at h
    cases update with
    | createDatabase name =>
      simp only [pure, Except.pure] at h
      split at h
      · cases h
      · next hne =>
        cases h
        exact ⟨hne, fun other => get_insert catalog name other _, fun hnone => (by cases hnone)⟩
    | enableDatabase name | disableDatabase name =>
      simp only [pure, Except.pure] at h
      split at h
      · cases h
      · next hne =>
        split at h
        · next hmark =>
          cases hmark
          cases h
          exact ⟨hne, fun other => get_insert catalog name other _, fun hnone => (by cases hnone)⟩
        · cases h
    | deleteDatabase name =>
      simp only [pure, Except.pure] at h
      split at h
      · cases h
      · next hne =>
        split at h
        · cases h
        · cases h
        · next hdisabled =>
          cases h
          exact ⟨hne, get_erase catalog name, fun _ => hdisabled⟩

end CatalogUpdate

/-! ## Saving the catalog -/

namespace Catalog

/-- The names in the order of their keys. -/
def names (catalog : Catalog) : List String := catalog.keys.insertionSort (· ≤ ·)

/-- The default database is in every catalog. -/
def withDefault (catalog : Catalog) : Catalog :=
  if (catalog.get defaultDatabase).isSome then catalog else catalog.insert defaultDatabase false

/-- The writes of `save_catalog_records`, one key at a time. -/
def saveWrites (stored records : Catalog) : List (FiniteMap.Write String Bool) :=
  (names stored).map .delete ++ (names (withDefault records)).map fun name =>
    .put name (((withDefault records).get name).getD false)

/-- `catalog_records`, where the text file has the names `text`; without a file it stands for
the default database. -/
def catalogRecords (text : List String) (stored : Catalog) : Catalog :=
  withDefault (if stored.keys = [] then text.foldl (·.insert · false) .empty else stored)

/-- The store after some of the writes. -/
def afterWrites (stored after : Catalog) (done : Nat) : Catalog :=
  stored.writeAll ((saveWrites stored after).take done)

/-- Whatever number of writes has been done, the records that are read after a restart are
those of before or those of after the update. -/
def CrashAtomic (text : List String) (stored after : Catalog) : Prop :=
  ∀ done,
    (∀ name, (catalogRecords text (stored.afterWrites after done)).get name = stored.get name) ∨
    ∀ name, (catalogRecords text (stored.afterWrites after done)).get name = after.get name

/-- No tenant but the one that is created or deleted is there, and the text file has none but
the one that is created. -/
def OnlyTenant (text : List String) (stored : Catalog) (update : CatalogUpdate) : Prop :=
  (∀ name, name ≠ defaultDatabase → name ≠ update.name → stored.get name = none) ∧
    (stored.get update.name = none ∨ update.disabled = none) ∧
    ∀ name ∈ text, name = defaultDatabase ∨ update.disabled = some false ∧ name = update.name

variable {text : List String} {stored after : Catalog} {name : String}

theorem mem_names : name ∈ names stored ↔ (stored.get name).isSome := by
  rw [names, List.mem_insertionSort, mem_keys]

theorem get_withDefault : (withDefault stored).get name =
    if name = defaultDatabase then some ((stored.get name).getD false) else stored.get name := by
  unfold withDefault
  cases hget : stored.get defaultDatabase with
  | none =>
    rw [Option.isSome_none, if_neg Bool.false_ne_true, get_insert]
    split
    · next heq => rw [heq, hget, Option.getD_none]
    · rfl
  | some =>
    rw [Option.isSome_some, if_pos rfl]
    split
    · next heq => rw [heq, hget, Option.getD_some]
    · rfl

theorem get_catalogRecords : (catalogRecords text stored).get name =
    if name = defaultDatabase then
      some (((if stored.keys = [] then none else stored.get name)).getD false)
    else if stored.keys = [] then (if name ∈ text then some false else none)
    else stored.get name := by
  have htext : ∀ catalog : Catalog, (text.foldl (·.insert · false) catalog).get name =
      if name ∈ text then some false else catalog.get name := by
    induction text with
    | nil => simp
    | cons first text ih =>
      intro catalog
      rw [List.foldl_cons, ih, get_insert]
      by_cases hfirst : name = first <;> simp [hfirst]
  rw [catalogRecords, get_withDefault]
  by_cases hkeys : stored.keys = []
  · simp only [if_pos hkeys, htext, get_empty]
    by_cases hmem : name ∈ text <;> simp [hmem]
  · simp only [if_neg hkeys]

theorem get_writeAll_puts_of (catalog records : Catalog) (keys : List String) :
    (catalog.writeAll (keys.map fun key => .put key ((records.get key).getD false))).get name =
      if name ∈ keys then some ((records.get name).getD false) else catalog.get name := by
  induction keys generalizing catalog with
  | nil => simp
  | cons key keys ih =>
    rw [List.map_cons, writeAll_cons, ih, write, get_insert]
    by_cases hkey : name = key <;> simp [hkey]

theorem get_saved (hafter : after.get defaultDatabase = some false) (done : Nat) :
    (stored.afterWrites after done).get name =
      if name ∈ (names after).take (done - (names stored).length) then after.get name
      else if name ∈ (names stored).take done then none else stored.get name := by
  have hdefault : withDefault after = after := if_pos (by rw [hafter]; rfl)
  rw [afterWrites, saveWrites, List.take_append, ← List.map_take, ← List.map_take, writeAll_append,
    get_writeAll_puts_of, get_writeAll_deletes]
  have hmem : name ∈ (names after).take (done - (names stored).length) → (after.get name).isSome :=
    fun h => mem_names.mp (List.mem_of_mem_take h)
  simp only [hdefault, List.length_map]
  split
  · next hput =>
    obtain ⟨mark, hmark⟩ := Option.isSome_iff_exists.mp (hmem hput)
    rw [hmark, Option.getD_some]
  · rfl

/-- A tenant of before and after is lost before the last delete or after the first put. -/
theorem not_crashAtomic (hstored : stored.get defaultDatabase = some false)
    (hafter : after.get defaultDatabase = some false) (hname : name ≠ defaultDatabase)
    (hbefore : stored.get name ≠ none) (hkept : after.get name ≠ none) :
    ¬ CrashAtomic text stored after := by
  intro h
  -- a store with some key in it that does not have the name
  have hlost : ∀ done other, (stored.afterWrites after done).get name = none →
      (stored.afterWrites after done).get other ≠ none → False := by
    intro done other hnone hother
    have hkeys : (stored.afterWrites after done).keys ≠ [] :=
      fun hnil => hother (keys_eq_nil_iff.mp hnil other)
    have hread : (catalogRecords text (stored.afterWrites after done)).get name = none := by
      rw [get_catalogRecords, if_neg hname, if_neg hkeys, hnone]
    rcases h done with hall | hall
    · exact hbefore (hread ▸ (hall name).symm)
    · exact hkept (hread ▸ (hall name).symm)
  have hmember : name ∈ names stored := mem_names.mpr (Option.isSome_iff_ne_none.mpr hbefore)
  have hdefault : ∀ catalog : Catalog, catalog.get defaultDatabase = some false →
      defaultDatabase ∈ names catalog := fun _ h => mem_names.mpr (by rw [h]; rfl)
  obtain ⟨earlier, last, hnames⟩ := (names stored).eq_nil_or_concat.resolve_left
    (List.ne_nil_of_mem hmember)
  rw [List.concat_eq_append] at hnames
  have hsorted : (earlier ++ [last]).Pairwise (· ≤ ·) :=
    hnames ▸ List.sortedLE_insertionSort.pairwise
  have hnodup : (earlier ++ [last]).Nodup := hnames ▸
    (List.perm_insertionSort _ _).nodup_iff.mpr (nodup_keys stored)
  by_cases hlast : last = name
  · -- the name comes after the default database, and is not the first that is put
    cases hput : names after with
    | nil => exact List.ne_nil_of_mem (hdefault after hafter) hput
    | cons first later =>
      have hle : first ≤ defaultDatabase := by
        have hsorted' : (first :: later).Pairwise (· ≤ ·) :=
          hput ▸ List.sortedLE_insertionSort.pairwise
        have hmem := hdefault after hafter
        rw [hput] at hmem
        rcases List.mem_cons.mp hmem with heq | hlater
        · exact heq ▸ le_rfl
        · exact List.rel_of_pairwise_cons hsorted' hlater
      have hge : defaultDatabase ≤ name := by
        have hmem := hdefault stored hstored
        rw [hnames, List.mem_append, List.mem_singleton, hlast] at hmem
        rcases hmem with hearlier | heq
        · exact hlast ▸ (List.pairwise_append.mp hsorted).2.2 _ hearlier last (.head _)
        · exact heq ▸ le_rfl
      have hne : name ≠ first := fun heq => hname (le_antisymm (heq ▸ hle) hge)
      have hfirst : first ∈ names after := by rw [hput]; exact .head _
      have hsome := mem_names.mp hfirst
      refine hlost ((names stored).length + 1) first ?_ ?_
      · rw [get_saved hafter, hput, List.take_of_length_le (Nat.le_succ _)]
        simp [hne, hmember]
      · rw [get_saved hafter, hput]
        simpa using Option.isSome_iff_ne_none.mp hsome
  · have hearlier : name ∈ earlier := by
      rw [hnames, List.mem_append, List.mem_singleton] at hmember
      exact hmember.resolve_right (Ne.symm hlast)
    have hsome : (stored.get last).isSome := mem_names.mp (by rw [hnames]; simp)
    have hnew : last ∉ earlier := fun hin =>
      (List.nodup_append.mp hnodup).2.2 last hin last (.head _) rfl
    refine hlost earlier.length last ?_ ?_
    · rw [get_saved hafter, hnames]
      simp [hearlier]
    · rw [get_saved hafter, hnames]
      simpa [hnew] using Option.isSome_iff_ne_none.mp hsome

section Reads

variable (hafter : after.get defaultDatabase = some false) (done : Nat)

include hafter

/-- The default database reads as enabled after any number of writes. -/
theorem read_default (hstored : stored.get defaultDatabase = some false) :
    (catalogRecords text (stored.afterWrites after done)).get defaultDatabase = some false := by
  rw [get_catalogRecords, if_pos rfl, get_saved hafter, hafter, hstored]
  split_ifs <;> rfl

variable (text) in
/-- A tenant reads as before or as after the update, or as the text file has it. -/
theorem read_tenant (hname : name ≠ defaultDatabase) :
    let read := (catalogRecords text (stored.afterWrites after done)).get name
    read = stored.get name ∨ read = after.get name ∨ read = none ∨
      name ∈ text ∧ read = some false := by
  rw [get_catalogRecords, if_neg hname]
  split
  · split
    · next hmem => exact .inr (.inr (.inr ⟨hmem, rfl⟩))
    · exact .inr (.inr (.inl rfl))
  · rw [get_saved hafter]
    split
    · exact .inr (.inl rfl)
    · split
      · exact .inr (.inr (.inl rfl))
      · exact .inl rfl

variable (stored) in
/-- With all records deleted, the text file is read. -/
theorem read_text (hname : name ≠ defaultDatabase) (hmem : name ∈ text) :
    (catalogRecords text (stored.afterWrites after (names stored).length)).get name =
      some false := by
  have hempty : (stored.afterWrites after (names stored).length).keys = [] := by
    refine keys_eq_nil_iff.mpr fun other => ?_
    rw [get_saved hafter, Nat.sub_self, List.take_zero, List.take_length,
      if_neg List.not_mem_nil]
    split
    · rfl
    · next hnot => exact Option.not_isSome_iff_eq_none.mp (mt mem_names.mpr hnot)
  rw [get_catalogRecords, if_neg hname, if_pos hempty, if_pos hmem]

end Reads

section Update

variable {update : CatalogUpdate} (hstored : stored.get defaultDatabase = some false)
  (hrun : update.run stored = .ok (some after))

include hstored hrun

theorem default_of_run : after.get defaultDatabase = some false := by
  obtain ⟨hname, hget, -⟩ := CatalogUpdate.get_of_run hrun
  rw [hget, if_neg hname.symm, hstored]

/-- Another tenant would be lost, and a database of the text file alone would be read. -/
theorem CrashAtomic.onlyTenant (h : CrashAtomic text stored after) :
    OnlyTenant text stored update := by
  obtain ⟨hname, hget, hdelete⟩ := CatalogUpdate.get_of_run hrun
  have hafter := default_of_run hstored hrun
  have hkept : ∀ name, name ≠ defaultDatabase → stored.get name ≠ none → after.get name = none :=
    fun name hne hsome => by_contra fun hafter' =>
      not_crashAtomic hstored hafter hne hsome hafter' h
  have hothers : ∀ name, name ≠ defaultDatabase → name ≠ update.name →
      stored.get name = none := by
    intro name hne hother
    by_contra hsome
    have hnone := hkept name hne hsome
    rw [hget, if_neg hother] at hnone
    exact hsome hnone
  have hone : stored.get update.name = none ∨ update.disabled = none := by
    by_cases hsome : stored.get update.name = none
    · exact .inl hsome
    · have hnone := hkept update.name hname hsome
      rw [hget, if_pos rfl] at hnone
      exact .inr hnone
  refine ⟨hothers, hone, fun name hmem => ?_⟩
  by_cases hne : name = defaultDatabase
  · exact .inl hne
  have hread : some false = stored.get name ∨ some false = after.get name := by
    rw [← read_text stored hafter hne hmem]
    exact (h (names stored).length).imp (fun hall => hall name) fun hall => hall name
  by_cases hown : name = update.name
  · subst hown
    rw [hget, if_pos rfl] at hread
    rcases hread with hold | hnew
    · -- a tenant that is enabled is neither created nor deleted
      rcases hone with hnone | hnone
      · rw [hnone] at hold
        cases hold
      · rw [hdelete hnone] at hold
        cases hold
    · exact .inr ⟨hnew.symm, rfl⟩
  · rw [hget, if_neg hown, or_self, hothers name hne hown] at hread
    cases hread

/-- Only the tenant of the update can read in two ways. -/
theorem OnlyTenant.crashAtomic (h : OnlyTenant text stored update) :
    CrashAtomic text stored after := by
  obtain ⟨hname, hget, -⟩ := CatalogUpdate.get_of_run hrun
  have hafter := default_of_run hstored hrun
  obtain ⟨hothers, hone, htext⟩ := h
  intro done
  have hsame : ∀ name, name ≠ update.name →
      (catalogRecords text (stored.afterWrites after done)).get name = stored.get name := by
    intro name hother
    by_cases hne : name = defaultDatabase
    · subst hne
      rw [read_default hafter done hstored, hstored]
    · have hnone := hothers name hne hother
      rcases read_tenant text hafter done hne with h | h | h | ⟨hmem, -⟩
      · exact h
      · rw [h, hget, if_neg hother]
      · rw [h, hnone]
      · rcases htext name hmem with heq | ⟨-, heq⟩
        · exact absurd heq hne
        · exact absurd heq hother
  have hown : (catalogRecords text (stored.afterWrites after done)).get update.name =
      stored.get update.name ∨ (catalogRecords text (stored.afterWrites after done)).get
        update.name = after.get update.name := by
    rcases read_tenant text hafter done hname with h | h | h | ⟨hmem, h⟩
    · exact .inl h
    · exact .inr h
    · rw [h, hget, if_pos rfl]
      exact hone.imp Eq.symm Eq.symm
    · rw [h, hget, if_pos rfl]
      exact .inr ((htext _ hmem).resolve_left hname).1.symm
  refine hown.imp (fun hown name => ?_) fun hown name => ?_
  · by_cases hne : name = update.name
    · exact hne ▸ hown
    · exact hsame name hne
  · by_cases hne : name = update.name
    · exact hne ▸ hown
    · rw [hsame name hne, hget, if_neg hne]

end Update

/-- The update of a catalog is atomic in a crash exactly if its tenant is the only one. -/
theorem crashAtomic_iff (update : CatalogUpdate) (hstored : stored.get defaultDatabase = some false)
    (hrun : update.run stored = .ok (some after)) :
    CrashAtomic text stored after ↔ OnlyTenant text stored update :=
  ⟨CrashAtomic.onlyTenant hstored hrun, OnlyTenant.crashAtomic hstored hrun⟩

/-- A catalog without tenants. -/
def bare : Catalog := empty.insert defaultDatabase false

/-- The first tenant is created atomically. -/
theorem crashAtomic_first : CrashAtomic [] bare (insert bare "tenant_a" false) := by
  refine (crashAtomic_iff (.createDatabase "tenant_a") (by decide +kernel) rfl).mpr
    ⟨fun name hne _ => ?_, .inl (by decide +kernel), by simp⟩
  rw [bare, get_insert, if_neg hne, get_empty]

/-- A crash in the creation of a second tenant, after the first put: the first tenant, which was
disabled, is gone; after all deletes, it is enabled if the text file has it. -/
theorem tenant_lost_in_crash :
    ∃ stored after : Catalog, stored = insert bare "tenant_a" true ∧
      (CatalogUpdate.createDatabase "tenant_b").run stored = .ok (some after) ∧
      (catalogRecords [] (stored.afterWrites after 3)).get "tenant_a" = none ∧
      (catalogRecords ["tenant_a"] (stored.afterWrites after 2)).get "tenant_a" = some false :=
  ⟨_, _, rfl, rfl, by decide +kernel, by decide +kernel⟩

/-- **What a crash can do to a record**: it reads as before or as after the update, or it is
lost, or the text file has its name and it is enabled.  The default database is not lost. -/
theorem get_after_crash (update : CatalogUpdate)
    (hstored : stored.get defaultDatabase = some false)
    (hrun : update.run stored = .ok (some after)) (done : Nat) :
    let read := (catalogRecords text (stored.afterWrites after done)).get name
    read = stored.get name ∨ read = after.get name ∨
      name ≠ defaultDatabase ∧ (read = none ∨ name ∈ text ∧ read = some false) := by
  have hafter := default_of_run hstored hrun
  by_cases hne : name = defaultDatabase
  · subst hne
    exact .inl ((read_default hafter done hstored).trans hstored.symm)
  · rcases read_tenant text hafter done hne with h | h | h
    · exact .inl h
    · exact .inr (.inl h)
    · exact .inr (.inr ⟨hne, h⟩)

/-- A crash after the first write. -/
theorem get_after_crash_first :
    let read := (catalogRecords [] (bare.afterWrites (insert bare "a" false) 1)).get "a"
    read = bare.get "a" ∨ read = (insert bare "a" false).get "a" ∨
      "a" ≠ defaultDatabase ∧ (read = none ∨ "a" ∈ [] ∧ read = some false) :=
  get_after_crash (.createDatabase "a") (by decide +kernel) rfl 1

end Catalog

/-! ## Several threads -/

/-- Calls of several threads: what each has loaded, and the order of the saves, which no
thread reads. -/
structure CatalogCalls where
  stored : Catalog
  loaded : Nat → Option Catalog
  saved : List Nat

namespace CatalogCalls

/-- A load or a save of one of the calls. -/
inductive Event
  | load (call : Nat)
  | save (call : Nat)

variable (calls : Nat → CatalogUpdate) (initial : Catalog)

/-- One call after another. -/
def sequential (order : List Nat) : Except String Catalog :=
  order.foldlM (fun catalog call => ((calls call).run catalog).map (·.getD catalog)) initial

/-- Any number of calls, each of which loads the catalog and saves it once. -/
def machine : Machine CatalogCalls Event where
  init s := s = ⟨initial, fun _ => none, []⟩
  enabled s
    | .load call => s.loaded call = none
    | .save call => call ∉ s.saved ∧ ∃ catalog, s.loaded call = some catalog ∧
        ∃ records, (calls call).run catalog = .ok records
  next s
    | .load call => { s with loaded := update s.loaded call (some s.stored) }
    | .save call => match s.loaded call with
      | none => s
      | some catalog => match (calls call).run catalog with
        -- without records nothing is written
        | .ok records => { s with stored := records.getD s.stored, saved := s.saved ++ [call] }
        | .error _ => s

/-- A call saves while the catalog is what it has loaded. -/
def Unchanged (s : CatalogCalls) : Event → Prop
  | .load _ => True
  | .save call => s.loaded call = some s.stored

/-- Calls that save what is still the catalog save what they would one after another, in the
order of their saves. -/
theorem sequential_of_reachable {s : CatalogCalls}
    (h : ((machine calls initial).restrict Unchanged).Reachable s) :
    sequential calls initial s.saved = .ok s.stored := by
  refine h.invariant (P := fun s => sequential calls initial s.saved = .ok s.stored) ?_ ?_
  · rintro _ rfl
    rfl
  · intro s event _ hs henabled
    cases event with
    | load => exact hs
    | save =>
      obtain ⟨⟨-, catalog, hcatalog, records, hrun⟩, hloaded⟩ := henabled
      cases hcatalog.symm.trans hloaded
      simp only [Machine.restrict, machine, hcatalog, hrun]
      rw [sequential, List.foldlM_append]
      change sequential calls initial s.saved >>= _ = _
      rw [hs]
      simp only [bind, Except.bind, List.foldlM_cons, List.foldlM_nil, hrun]
      rfl

/-- Two threads, each of which creates a tenant. -/
def twoCreations (call : Nat) : CatalogUpdate :=
  .createDatabase (if call = 0 then "tenant_a" else "tenant_b")

/-- In turn. -/
theorem sequential_inTurn : sequential twoCreations Catalog.bare [0, 1] =
    .ok ((machine twoCreations Catalog.bare).run ⟨Catalog.bare, fun _ => none, []⟩
      [.load 0, .save 0, .load 1, .save 1]).stored := by
  have hstart : ((machine twoCreations Catalog.bare).restrict Unchanged).Reachable
    ⟨Catalog.bare, fun _ => none, []⟩ := .start rfl
  have hrun : ((machine twoCreations Catalog.bare).restrict Unchanged).Admissible
      ⟨Catalog.bare, fun _ => none, []⟩ [.load 0, .save 0, .load 1, .save 1] :=
    ⟨⟨rfl, trivial⟩, ⟨⟨List.not_mem_nil, _, rfl, _, rfl⟩, rfl⟩, ⟨rfl, trivial⟩,
      ⟨⟨by decide, _, rfl, _, rfl⟩, rfl⟩, trivial⟩
  exact sequential_of_reachable _ _ (hstart.run hrun)

/-- Both have loaded before either saves: the first tenant is lost, which is in the catalog
whatever the order. -/
theorem creation_lost :
    (((machine twoCreations Catalog.bare).run ⟨Catalog.bare, fun _ => none, []⟩
      [.load 0, .load 1, .save 0, .save 1]).stored.get "tenant_a" = none) ∧
    ((sequential twoCreations Catalog.bare [0, 1]).map (·.get "tenant_a") = .ok (some false)) ∧
    ((sequential twoCreations Catalog.bare [1, 0]).map (·.get "tenant_a") = .ok (some false)) :=
  ⟨by decide +kernel, rfl, rfl⟩

/-- The catalog is what some of the saved calls make of it, one after another in the order of
their saves. -/
def Explained (saved : List Nat) (catalog : Catalog) : Prop :=
  ∃ order, order.Sublist saved ∧ sequential calls initial order = .ok catalog

variable {calls initial} {saved : List Nat} {catalog : Catalog}

theorem Explained.mono {call : Nat} (h : Explained calls initial saved catalog) :
    Explained calls initial (saved ++ [call]) catalog := by
  obtain ⟨order, hsub, hseq⟩ := h
  exact ⟨order, hsub.trans (List.sublist_append_left _ _), hseq⟩

theorem Explained.save {call : Nat} {records : Catalog} (h : Explained calls initial saved catalog)
    (hrun : (calls call).run catalog = .ok (some records)) :
    Explained calls initial (saved ++ [call]) records := by
  obtain ⟨order, hsub, hseq⟩ := h
  refine ⟨order ++ [call], hsub.append_right _, ?_⟩
  rw [sequential, List.foldlM_append]
  change sequential calls initial order >>= _ = _
  simp [hseq, hrun, bind, Except.bind, Except.map, pure, Except.pure]

/-- **Updates may be lost, and that is all.**  However the calls interleave, the catalog is what
some of them make of it, one after another. -/
theorem explained_of_reachable {s : CatalogCalls} (h : (machine calls initial).Reachable s) :
    Explained calls initial s.saved s.stored := by
  refine (h.invariant (P := fun s : CatalogCalls => Explained calls initial s.saved s.stored ∧
    ∀ call catalog, s.loaded call = some catalog → Explained calls initial s.saved catalog) ?_ ?_).1
  · rintro _ rfl
    exact ⟨⟨[], .refl _, rfl⟩, by simp⟩
  · rintro s event - ⟨hstored, hloaded⟩ henabled
    cases event with
    | load call =>
      refine ⟨hstored, fun other catalog hother => ?_⟩
      simp only [machine, update_apply] at hother
      split at hother
      · exact Option.some.inj hother ▸ hstored
      · exact hloaded other catalog hother
    | save call =>
      obtain ⟨-, catalog, hcatalog, records, hrun⟩ := henabled
      simp only [machine, hcatalog, hrun]
      refine ⟨?_, fun other catalog' hother => (hloaded other catalog' hother).mono⟩
      cases records with
      | none => exact hstored.mono
      | some => exact (hloaded call catalog hcatalog).save hrun

/-- Of two creations one is lost. -/
theorem explained_twoCreations : ∃ s : CatalogCalls, s.saved = [0, 1] ∧
    Explained twoCreations Catalog.bare s.saved s.stored := by
  have hrun : (machine twoCreations Catalog.bare).Admissible ⟨Catalog.bare, fun _ => none, []⟩
      [.load 0, .load 1, .save 0, .save 1] :=
    ⟨rfl, rfl, ⟨List.not_mem_nil, _, rfl, _, rfl⟩, ⟨by decide, _, rfl, _, rfl⟩, trivial⟩
  exact ⟨_, rfl, explained_of_reachable (.run (.start rfl) hrun)⟩

end CatalogCalls

/-! ## Data -/

/-- A server's catalog, its open databases and their data: the times at which the nodes and
relationships in a directory were written.  The times of the deletions are the model's. -/
structure TenantServer where
  catalog : Catalog
  databases : Finset String
  data : String → List Nat
  clock : Nat
  deletedAt : String → Nat

namespace TenantServer

/-- What happens to a server. -/
inductive Event
  | createDatabase (name : String)
  | enableDatabase (name : String)
  | disableDatabase (name : String)
  | deleteDatabase (name : String)
  | database (name : String)
  | write (name : String)
  | remove (name : String) (written : Nat)
  | restart

/-- The server after the catalog has been updated, or as it was. -/
def updated (s : TenantServer) (update : CatalogUpdate) (after : TenantServer → TenantServer) :
    TenantServer :=
  match update.run s.catalog with
  | .ok (some catalog) => after { s with catalog }
  | _ => s

/-- The server after an event. -/
def next (s : TenantServer) : Event → TenantServer
  | .createDatabase name =>
      -- an open database is handed out as it is
      if name ∈ s.databases then s
      else s.updated (.createDatabase name) fun s => { s with databases := insert name s.databases }
  | .enableDatabase name => s.updated (.enableDatabase name) id
  | .disableDatabase name =>
      s.updated (.disableDatabase name) fun s => { s with databases := s.databases.erase name }
  | .deleteDatabase name => s.updated (.deleteDatabase name) fun s => { s with
      databases := s.databases.erase name
      deletedAt := update s.deletedAt name s.clock }
  | .database name =>
      if name ≠ defaultDatabase ∧ s.catalog.get name = some false then
        { s with databases := insert name s.databases }
      else s
  -- a handle that was handed out may be in use while its database is no longer open here
  | .write name => { s with
      data := update s.data name (s.clock :: s.data name)
      clock := s.clock + 1 }
  | .remove name written =>
      { s with data := update s.data name ((s.data name).filter (· ≠ written)) }
  | .restart => { s with
      databases := (s.catalog.keys.filter fun name =>
        name ≠ defaultDatabase ∧ s.catalog.get name = some false).toFinset }

/-- The runs of a server. -/
def machine : Machine TenantServer Event where
  init s := s = ⟨Catalog.bare, ∅, fun _ => [], 0, fun _ => 0⟩
  enabled _ _ := True
  next := next

/-- A database is deleted when there is nothing in it. -/
def DeletesEmpty (s : TenantServer) : Event → Prop
  | .deleteDatabase name => s.data name = []
  | _ => True

/-- What is in a directory was written after the last deletion. -/
def Clean (s : TenantServer) : Prop :=
  ∀ name, s.deletedAt name ≤ s.clock ∧ ∀ written ∈ s.data name, s.deletedAt name ≤ written

/-- Where only empty databases are deleted, no database has what was written before it was
deleted. -/
theorem clean_of_reachable {s : TenantServer} (h : (machine.restrict DeletesEmpty).Reachable s) :
    s.Clean := by
  refine h.invariant ?_ ?_
  · rintro _ rfl name
    simp
  · intro s event _ hs henabled
    have hupdated : ∀ update (after : TenantServer → TenantServer),
        (∀ catalog, (after { s with catalog }).Clean) → (s.updated update after).Clean := by
      intro update after hafter
      unfold updated
      split
      · exact hafter _
      · exact hs
    cases event with
    | createDatabase =>
      simp only [Machine.restrict, machine, next]
      split
      · exact hs
      · exact hupdated _ _ fun _ => hs
    | database =>
      simp only [Machine.restrict, machine, next]
      split <;> exact hs
    | enableDatabase | disableDatabase => exact hupdated _ _ fun _ => hs
    | deleteDatabase name =>
      refine hupdated _ _ fun _ other => ?_
      have hempty : s.data name = [] := henabled.2
      simp only [update_apply]
      split
      · next heq =>
        subst heq
        exact ⟨Nat.le_refl _, by simp [hempty]⟩
      · exact hs other
    | write name =>
      intro other
      obtain ⟨hclock, hdata⟩ := hs other
      refine ⟨Nat.le_succ_of_le hclock, fun written hmem => ?_⟩
      simp only [Machine.restrict, machine, next, update_apply] at hmem
      split at hmem
      · next heq =>
        subst heq
        rcases List.mem_cons.mp hmem with rfl | hold
        · exact hclock
        · exact hdata written hold
      · exact hdata written hmem
    | remove name =>
      intro other
      obtain ⟨hclock, hdata⟩ := hs other
      refine ⟨hclock, fun written hmem => ?_⟩
      simp only [Machine.restrict, machine, next, update_apply] at hmem
      split at hmem
      · next heq =>
        subst heq
        exact hdata written (List.mem_of_mem_filter hmem)
      · exact hdata written hmem
    | restart => exact hs

/-- A tenant that is created, emptied, deleted and created again. -/
def emptied : List Event :=
  [.createDatabase "a", .write "a", .remove "a" 0, .disableDatabase "a", .deleteDatabase "a",
    .createDatabase "a"]

theorem clean_emptied :
    (machine.run ⟨Catalog.bare, ∅, fun _ => [], 0, fun _ => 0⟩ emptied).Clean := by
  have hstart : (machine.restrict DeletesEmpty).Reachable
    ⟨Catalog.bare, ∅, fun _ => [], 0, fun _ => 0⟩ := .start rfl
  exact clean_of_reachable (hstart.run ⟨⟨trivial, trivial⟩, ⟨trivial, trivial⟩, ⟨trivial, trivial⟩,
    ⟨trivial, trivial⟩, ⟨trivial, rfl⟩, ⟨trivial, trivial⟩, trivial⟩)

/-- A tenant that is deleted with what is in it has that again when it is created again. -/
theorem data_returns :
    ∃ s, s = machine.run ⟨Catalog.bare, ∅, fun _ => [], 0, fun _ => 0⟩ [.createDatabase "a",
        .write "a", .disableDatabase "a", .deleteDatabase "a", .createDatabase "a"] ∧
      "a" ∈ s.databases ∧ s.data "a" = [0] ∧ s.deletedAt "a" = 1 :=
  ⟨_, rfl, by decide +kernel, by decide +kernel, by decide +kernel⟩

/-- Every open database is a tenant that is enabled. -/
def OpenEnabled (databases : Finset String) (catalog : Catalog) : Prop :=
  ∀ name ∈ databases, name ≠ defaultDatabase ∧ catalog.get name = some false

/-- An update changes the record of its own tenant only. -/
theorem OpenEnabled.updated {databases databases' : Finset String} {catalog after : Catalog}
    (h : OpenEnabled databases catalog) {update : CatalogUpdate}
    (hrun : update.run catalog = .ok (some after))
    (hdatabases : ∀ name ∈ databases',
      name = update.name ∧ update.disabled = some false ∨ name ≠ update.name ∧ name ∈ databases) :
    OpenEnabled databases' after := by
  obtain ⟨hne, hget, -⟩ := CatalogUpdate.get_of_run hrun
  intro name hmem
  rcases hdatabases name hmem with ⟨rfl, henabled⟩ | ⟨hother, hold⟩
  · exact ⟨hne, by rw [hget, if_pos rfl, henabled]⟩
  · rw [hget, if_neg hother]
    exact h name hold

/-- **No disabled or deleted tenant is open**, in any run. -/
theorem open_enabled {s : TenantServer} (h : machine.Reachable s) :
    ∀ name ∈ s.databases, name ≠ defaultDatabase ∧ s.catalog.get name = some false := by
  refine h.invariant (P := fun s : TenantServer => OpenEnabled s.databases s.catalog) ?_
    fun s event _ hs _ => ?_
  · rintro _ rfl
    simp [OpenEnabled]
  have hupdated : ∀ (update : CatalogUpdate) (after : TenantServer → TenantServer),
      (∀ catalog, update.run s.catalog = .ok (some catalog) →
        OpenEnabled (after { s with catalog }).databases (after { s with catalog }).catalog) →
      OpenEnabled (s.updated update after).databases (s.updated update after).catalog := by
    intro update after hafter
    unfold TenantServer.updated
    split
    · next catalog hrun => exact hafter catalog hrun
    · exact hs
  have herased : ∀ name, ∀ other ∈ s.databases.erase name, other ≠ name ∧ other ∈ s.databases :=
    fun _ _ => Finset.mem_erase.mp
  cases event with
  | write | remove => exact hs
  | restart => simp [OpenEnabled, machine, next]
  | createDatabase name =>
    simp only [machine, next]
    split
    · exact hs
    · refine hupdated _ _ fun catalog hrun => hs.updated hrun fun other hmem => ?_
      by_cases hother : other = name
      · exact .inl ⟨hother, rfl⟩
      · exact .inr ⟨hother, (Finset.mem_insert.mp hmem).resolve_left hother⟩
  | enableDatabase name =>
    refine hupdated _ _ fun catalog hrun => hs.updated hrun fun other hmem => ?_
    by_cases hother : other = name
    · exact .inl ⟨hother, rfl⟩
    · exact .inr ⟨hother, hmem⟩
  | disableDatabase name =>
    exact hupdated _ _ fun catalog hrun => hs.updated hrun fun other hmem =>
      .inr (herased name other hmem)
  | deleteDatabase name =>
    exact hupdated _ _ fun catalog hrun => hs.updated hrun fun other hmem =>
      .inr (herased name other hmem)
  | database name =>
    simp only [machine, next]
    split
    · next hopens =>
      intro other hmem
      rcases Finset.mem_insert.mp hmem with rfl | hold
      · exact hopens
      · exact hs other hold
    · exact hs

theorem open_enabled_emptied : ∃ s : TenantServer, "a" ∈ s.databases ∧
    s.catalog.get "a" = some false := by
  have hs : machine.Reachable (machine.run ⟨Catalog.bare, ∅, fun _ => [], 0, fun _ => 0⟩ emptied) :=
    .run (.start rfl) ⟨trivial, trivial, trivial, trivial, trivial, trivial, trivial⟩
  refine ⟨_, ?_, (open_enabled hs "a" ?_).2⟩ <;> decide +kernel

end TenantServer

end Neo4r.Server
