import Replica.Proofs.Store.Documents

/-!
# Staged commits

A commit applies its writes to copies of some databases, and writes applied one after another to all
databases have the same effect (`commit_eq`). Where copies are installed they are found in place of
what they were made of (`get?_install`), so a write to a copy that is then installed is a write to
what the copy was installed in (`install_stage`). Copies that were not changed yet make no
difference to the writes to come (`applyAll_congr`).
-/

namespace Replica

namespace Databases

variable {s s' staged : Databases}

/-- What a store keeps of a database that is put into it: nothing, if it has no collections. -/
def kept? (db : Database) : Option Database := if db.isEmpty then none else some db

/-- Where a database was put, it is found as far as it is kept. -/
theorem get?_setDatabase (s : Databases) (name other : String) (db : Database) :
    (s.setDatabase name db).get? other = if other = name then kept? db else s.get? other := by
  rw [setDatabase, kept?]
  split_ifs with hdb hname hname
  · rw [Table.get?_erase, if_pos hname]
  · rw [Table.get?_erase, if_neg hname]
  · rw [Table.get?_insert, if_pos hname]
  · rw [Table.get?_insert, if_neg hname]

/-- A copy is found where one was made. -/
theorem get?_copies (s : Databases) (names : List String) (name : String) :
    (s.copies names).get? name = if name ∈ names then some (s.database name) else none := by
  rw [copies, ← List.filterMap_eq_map']
  exact Table.get?_ofList_filterMap (fun name => some (s.database name)) names name

/-- Where databases of different names were put, they are found as far as they are kept. -/
theorem get?_foldl_setDatabase {l : List (String × Database)} (hl : (l.map Prod.fst).Nodup)
    (s : Databases) (name : String) :
    (l.foldl (fun s copy => s.setDatabase copy.1 copy.2) s).get? name =
      (Assoc.get? name l).elim (s.get? name) kept? := by
  induction l generalizing s with
  | nil => rfl
  | cons b l ih =>
    obtain ⟨hb, hl⟩ := List.nodup_cons.1 hl
    rw [List.foldl_cons, ih hl, Assoc.get?, get?_setDatabase]
    split_ifs with hname
    · -- no later database has this name
      have hlater : Assoc.get? name l = none := by
        rw [← Option.not_isSome_iff_eq_none, Assoc.get?_isSome, hname]
        exact hb
      rw [hlater]
      rfl
    · rfl

/-- Where staged databases were installed, they are found as far as they are kept. -/
theorem get?_install (s staged : Databases) (name : String) :
    (s.install staged).get? name = (staged.get? name).elim (s.get? name) kept? :=
  get?_foldl_setDatabase staged.nodup_keys s name

/-- The staged databases are those that are there after they were installed. -/
theorem database_install {name : String} {db : Database} (h : staged.get? name = some db) :
    (s.install staged).database name = staged.database name := by
  rw [database, get?_install, database, h, Option.elim_some, kept?]
  split_ifs with hempty
  · exact Table.ext_get? fun k => by simp [Table.get?_of_isEmpty hempty]
  · rfl

/-- A database that is staged in another one's place is installed in its place. -/
theorem install_insert (s staged : Databases) (name : String) (db : Database) :
    s.install (staged.insert name db) = (s.install staged).setDatabase name db := by
  refine Table.ext_get? fun other => ?_
  rw [get?_install, get?_setDatabase, get?_install, Table.get?_insert]
  split_ifs <;> rfl

/-- Installing copies that were not changed makes no database another one. -/
theorem database_install_copies (s : Databases) (names : List String) (name : String) :
    (s.install (s.copies names)).database name = s.database name := by
  by_cases hname : name ∈ names
  · have hcopy : (s.copies names).get? name = some (s.database name) := by
      rw [get?_copies, if_pos hname]
    rw [database_install hcopy, database, hcopy]
    rfl
  · rw [database, get?_install, get?_copies, if_neg hname]
    rfl

end Databases

namespace Write

variable {w : Write} {ws : List Write} {next next' : Did} {s s' staged : Databases}

/-- A write to a staged database, which is then installed, is a write to what it was installed
in. -/
theorem install_stage (s : Databases) (hw : staged.contains w.database = true) :
    w.apply next (s.install staged) =
      ((w.stage next staged).1.map s.install, (w.stage next staged).2) := by
  obtain ⟨db, hdb⟩ := Option.isSome_iff_exists.1 hw
  rw [apply, Databases.database_install hdb, stage]
  rcases w.onDatabase next (staged.database w.database) with ⟨_ | db', last⟩
  · rfl
  · simp only [Except.map, Databases.install_insert]

/-- Staging a write leaves everything staged that was. -/
theorem contains_stage {name : String} {staged' : Databases}
    (h : w.stage next staged = (.ok staged', next')) (hname : staged.contains name = true) :
    staged'.contains name = true := by
  rw [stage] at h
  split at h
  · cases congrArg Prod.fst h
  · obtain ⟨⟨rfl⟩, -⟩ := Prod.mk.inj h
    rw [Table.contains, Table.get?_insert]
    split_ifs
    · rfl
    · exact hname

/-- Writes to staged databases, which are then installed, are writes to what they were installed
in. -/
theorem install_stageAll (s : Databases) (hws : ∀ w ∈ ws, staged.contains w.database = true) :
    applyAll ws next (s.install staged) =
      ((stageAll ws next staged).1.map s.install, (stageAll ws next staged).2) := by
  induction ws generalizing next staged with
  | nil => rfl
  | cons w ws ih =>
    obtain ⟨hw, hws⟩ := List.forall_mem_cons.1 hws
    rw [applyAll, install_stage s hw, stageAll]
    rcases hstage : w.stage next staged with ⟨_ | staged', last⟩
    · rfl
    · exact ih fun w' hw' => contains_stage hstage (hws w' hw')

/-- Writes make the same of databases that agree, if those that no write changes are the same. A
database without collections is as good as none until a write to it decides. -/
theorem applyAll_congr (hagree : ∀ name, s.database name = s'.database name)
    (hsame : ∀ name, (∀ w ∈ ws, w.database ≠ name) → s.get? name = s'.get? name) :
    applyAll ws next s = applyAll ws next s' := by
  induction ws generalizing s s' next with
  | nil =>
    have : s = s' := Table.ext_get? fun name => hsame name fun _ hw => nomatch hw
    rw [this]
  | cons w ws ih =>
    rw [applyAll, applyAll, apply, apply, hagree w.database]
    rcases w.onDatabase next (s'.database w.database) with ⟨_ | db, last⟩
    · rfl
    · refine ih (fun name => ?_) fun name hname => ?_
      · rw [Databases.database_setDatabase, Databases.database_setDatabase, hagree name]
      · rw [Databases.get?_setDatabase, Databases.get?_setDatabase]
        split_ifs with hw
        · rfl
        · exact hsame name (List.forall_mem_cons.2 ⟨Ne.symm hw, hname⟩)

/-- Writes to copies of the databases that they change, which are then installed, are writes to all
databases. -/
theorem applyAll_eq_stageAll (ws : List Write) (next : Did) (s : Databases) :
    applyAll ws next s =
      ((stageAll ws next (s.copies (ws.map database))).1.map s.install,
        (stageAll ws next (s.copies (ws.map database))).2) := by
  have hcopied : ∀ w ∈ ws, (s.copies (ws.map database)).contains w.database = true := by
    intro w hw
    rw [Table.contains, Databases.get?_copies, if_pos (List.mem_map_of_mem hw)]
    rfl
  rw [← install_stageAll s hcopied]
  refine applyAll_congr (fun name => (s.database_install_copies _ name).symm) fun name hname => ?_
  have hout : name ∉ ws.map database := fun hmem =>
    have ⟨w, hw, heq⟩ := List.mem_map.1 hmem
    hname w hw heq
  rw [Databases.get?_install, Databases.get?_copies, if_neg hout]
  rfl

end Write

namespace Store

/-- A commit has the effect of its writes on all databases, one after another. -/
theorem commit_eq (s : Store) (t : Transaction) :
    s.commit t =
      if t.isEmpty then (.ok (), s)
      else if s.refusals.next.1 then
        (.error (.rollback "injected rollback"), { s with refusals := s.refusals.next.2 })
      else
        match s.failingTarget? t with
        | some ns => (.error (.user ("injected write failure on " ++ ns.text)),
            { s with refusals := s.refusals.next.2 })
        | none =>
          match Write.applyAll t s.nextDid s.databases with
          | (.error e, next) =>
            (.error e, { s with refusals := s.refusals.next.2, nextDid := next })
          | (.ok databases, next) =>
            (.ok (), { s with
              refusals := s.refusals.next.2, databases := databases, nextDid := next,
              commits := s.commits + 1 }) := by
  rw [commit, Write.applyAll_eq_stageAll]
  have hfailing :
      { s with refusals := s.refusals.next.2 }.failingTarget? t = s.failingTarget? t := rfl
  dsimp only
  rw [hfailing]
  rcases Write.stageAll t s.nextDid (s.databases.copies (t.map Write.database)) with
    ⟨_ | staged, next⟩ <;> rfl

/-- A commit that fails leaves the databases and the number of commits as they were. One that
succeeds has the effect of its writes one after another on all databases and leaves every database
that no write is about; it succeeds exactly if it has no writes or is not refused, all its
collections can be written to and every write can be made. -/
theorem commit_staged (s : Store) (t : Transaction) :
    (match s.commit t with
      | (.error _, s') => s'.databases = s.databases ∧ s'.commits = s.commits
      | (.ok _, s') =>
        Write.applyAll t s.nextDid s.databases = (.ok s'.databases, s'.nextDid) ∧
          (∀ name, (∀ w ∈ t, w.database ≠ name) →
            s'.databases.get? name = s.databases.get? name) ∧
          s'.commits = if t.isEmpty then s.commits else s.commits + 1) ∧
      ((s.commit t).1 = .ok () ↔
        t.isEmpty ∨ (s.refusals.next.1 = false ∧ s.failingTarget? t = none ∧
          ∃ databases, (Write.applyAll t s.nextDid s.databases).1 = .ok databases)) := by
  -- The cases are those of the commit: no writes, a refusal, and the writes themselves.
  rw [commit_eq]
  split_ifs with ht hrefused
  · rw [List.isEmpty_iff] at ht
    subst ht
    exact ⟨⟨rfl, fun _ _ => rfl, rfl⟩, by simp⟩
  · exact ⟨⟨rfl, rfl⟩, by simp [ht, hrefused]⟩
  · cases hfailing : s.failingTarget? t with
    | some ns => exact ⟨⟨rfl, rfl⟩, by simp [ht]⟩
    | none =>
      rcases happly : Write.applyAll t s.nextDid s.databases with ⟨e | databases, next⟩
      · exact ⟨⟨rfl, rfl⟩, by simp [ht]⟩
      · refine ⟨⟨rfl, fun name hname => Write.get?_applyAll_of_ne hname happly, rfl⟩, ?_⟩
        simp [ht, hrefused]

end Store

end Replica
