import ResourceAssembler.Proofs.Host.FileTree
import ResourceAssembler.Proofs.Host.Routes

/-!
# What creating directories does to a disk

A disk is extended when it keeps all that it has. On an extended disk every path that led somewhere
leads there still. Creating directories extends a disk, and whatever it adds is a directory to which
one of the paths asked for leads in the end. So a disk is a world with a tree of files.
-/

namespace ResourceAssembler.Disk

open Outcome

/-! ## Entries -/

theorem find?_put (entries : List (List String × Entry)) (place : List String) (entry : Entry)
    (other : List String) :
    ((put entries place entry).find? (·.1 = other)).map (·.2) =
      if other = place then some entry else (entries.find? (·.1 = other)).map (·.2) := by
  induction entries with
  | nil => by_cases h : place = other <;> simp [put, h, eq_comm]
  | cons e rest ih =>
      by_cases hplace : e.1 = place
      · by_cases h : place = other
        · simp [put, hplace, h]
        · have hne : other ≠ place := Ne.symm h
          simp [put, hplace, h, hne]
      · by_cases h : e.1 = other
        · have hne : other ≠ place := h ▸ hplace
          simp [put, h, hne]
        · simpa [put, hplace, h] using ih

theorem find?_insert {place : List String} (hplace : place ≠ []) (disk : Disk) (entry : Entry)
    (other : List String) :
    (disk.insert place entry).find? other =
      if other = place then some entry else disk.find? other := by
  by_cases htop : other = []
  · simp [find?, htop, hplace.symm]
  · simpa only [find?, insert, if_neg htop] using find?_put disk.entries place entry other

/-! ## Disks with the same directories -/

/-- A disk with all directories that another one has. -/
structure KeepsDirs (disk after : Disk) : Prop where
  workingPlace : after.workingPlace = disk.workingPlace
  find? : ∀ {place : List String}, disk.find? place = some .dir → after.find? place = some .dir

section Ways

variable {disk after : Disk} (h : KeepsDirs disk after)

include h

theorem KeepsDirs.step {place next : List String} {name : String}
    (hstep : disk.step place name = .ok next) : after.step place name = .ok next := by
  have hdir := find?_of_step hstep
  unfold Disk.step at hstep ⊢
  rw [hdir] at hstep
  rw [h.find? hdir]
  exact hstep

/-- Every way on a disk leads through directories, so it is one on a disk that has them. -/
theorem KeepsDirs.walk {names : List String} {start place : List String}
    (hwalk : disk.walk start names = .ok place) : after.walk start names = .ok place := by
  induction names generalizing start with
  | nil => exact hwalk
  | cons name rest ih =>
      obtain ⟨next, hstep, hrest⟩ := bind_eq_ok_iff.mp hwalk
      exact bind_eq_ok_iff.mpr ⟨next, h.step hstep, ih hrest⟩

theorem KeepsDirs.origin (path : String) : after.origin path = disk.origin path := by
  unfold Disk.origin
  rw [h.workingPlace]

theorem KeepsDirs.status {path : String} {place : List String} {entry : Entry}
    (hstatus : disk.status path = .ok (place, entry)) (hentry : after.find? place = some entry) :
    after.status path = .ok (place, entry) := by
  obtain ⟨hroutable, hwalk, -, hslash⟩ := status_eq_ok_iff.mp hstatus
  refine status_eq_ok_iff.mpr ⟨hroutable, ?_, hentry, hslash⟩
  rw [h.origin]
  exact h.walk hwalk

theorem KeepsDirs.look {path : String} (hdir : disk.look path = .dir) : after.look path = .dir := by
  obtain ⟨place, hstatus⟩ := look_eq_dir_iff.mp hdir
  have hkept := h.find? (status_eq_ok_iff.mp hstatus).2.2.1
  exact look_eq_dir_iff.mpr ⟨place, h.status hstatus hkept⟩

end Ways

/-! ## Extended disks -/

/-- A disk with all that another one has, and possibly more. -/
structure Extends (disk after : Disk) : Prop where
  workingPlace : after.workingPlace = disk.workingPlace
  find? : ∀ {place : List String} {entry : Entry},
    disk.find? place = some entry → after.find? place = some entry

theorem Extends.refl (disk : Disk) : Extends disk disk :=
  ⟨rfl, id⟩

theorem Extends.trans {a b c : Disk} (hab : Extends a b) (hbc : Extends b c) : Extends a c :=
  ⟨hbc.workingPlace.trans hab.workingPlace, fun h => hbc.find? (hab.find? h)⟩

theorem Extends.keepsDirs {disk after : Disk} (h : Extends disk after) : KeepsDirs disk after :=
  ⟨h.workingPlace, h.find?⟩

theorem Extends.status {disk after : Disk} (h : Extends disk after) {path : String}
    {found : List String × Entry} (hstatus : disk.status path = .ok found) :
    after.status path = .ok found :=
  h.keepsDirs.status hstatus (h.find? (status_eq_ok_iff.mp hstatus).2.2.1)

theorem extends_insert {disk : Disk} {place : List String} (h : disk.find? place = none)
    (entry : Entry) : Extends disk (disk.insert place entry) where
  workingPlace := rfl
  find? {other found} hfound := by
    have htop : place ≠ [] := by
      intro htop
      simp [Disk.find?, htop] at h
    have hother : other ≠ place := by
      rintro rfl
      simp [h] at hfound
    rw [find?_insert htop, if_neg hother, hfound]

/-! ## New directories -/

/-- The place of a new entry is where its path leads, if it leads anywhere. -/
theorem newPlace_eq_ok {disk : Disk} {path : String} {occupied : HostFault} {place : List String}
    (h : disk.newPlace path occupied = .ok place) :
    Routable path ∧ disk.walk (disk.origin path) (names path) = .ok place := by
  obtain ⟨found, hroute, hrest⟩ := bind_eq_ok_iff.mp h
  obtain ⟨hroutable, rfl⟩ := route_eq_ok_iff.mp hroute
  refine ⟨hroutable, ?_⟩
  dsimp only at hrest
  split at hrest
  · exact absurd hrest throw_ne_ok
  · obtain ⟨reached, hwalk, hname⟩ := bind_eq_ok_iff.mp hrest
    split at hname
    · exact absurd hname throw_ne_ok
    · exact hwalk.trans hname

/-- Creating a directory puts it at a free place, to which its path leads from then on. -/
theorem makeDir_eq_ok {disk after : Disk} {path : String} (h : disk.makeDir path = .ok after) :
    ∃ place, disk.find? place = none ∧ after = disk.insert place .dir ∧
      after.status path = .ok (place, .dir) := by
  obtain ⟨place, hplace, hfree⟩ := bind_eq_ok_iff.mp h
  cases hfound : disk.find? place with
  | some entry =>
      rw [hfound] at hfree
      exact absurd hfree throw_ne_ok
  | none =>
      rw [hfound] at hfree
      have hafter : after = disk.insert place .dir := pure_eq_ok_iff.mp hfree
      subst hafter
      obtain ⟨hroutable, hwalk⟩ := newPlace_eq_ok hplace
      have hkept := (extends_insert hfound .dir).keepsDirs
      have htop : place ≠ [] := by
        rintro rfl
        cases hfound
      have hdir : (disk.insert place .dir).find? place = some .dir := by
        rw [find?_insert htop, if_pos rfl]
      refine ⟨place, hfound, rfl, status_eq_ok_iff.mpr ⟨hroutable, ?_, hdir, fun _ => rfl⟩⟩
      rw [hkept.origin]
      exact hkept.walk hwalk

/-! ## The tree of a disk -/

def tree (disk : Disk) : Tree (List String) where
  entry := disk.find?
  place? path := (disk.status path).toOption.map (·.1)

theorem place?_of_status {disk : Disk} {path : String} {place : List String} {entry : Entry}
    (h : disk.status path = .ok (place, entry)) : disk.tree.place? path = some place := by
  simp [tree, h, Except.toOption]

theorem Extends.place? {disk after : Disk} (h : Extends disk after) {path : String}
    {place : List String} (hplace : disk.tree.place? path = some place) :
    after.tree.place? path = some place := by
  cases hstatus : disk.status path with
  | error fault => simp [tree, hstatus, Except.toOption] at hplace
  | ok found =>
      have hsame : found.1 = place := by simpa [tree, hstatus, Except.toOption] using hplace
      subst hsame
      exact place?_of_status (h.status hstatus)

/-- A disk that was extended by directories to which the paths lead. -/
structure Grown (disk after : Disk) (paths : List String) : Prop where
  kept : Extends disk after
  added : Tree.DirsAdded disk.tree after.tree paths

theorem Grown.refl (disk : Disk) (paths : List String) : Grown disk disk paths :=
  ⟨.refl disk, .refl disk.tree paths⟩

theorem Grown.mono {disk after : Disk} {paths more : List String} (h : Grown disk after paths)
    (hsub : paths ⊆ more) : Grown disk after more :=
  ⟨h.kept, h.added.mono hsub⟩

theorem Grown.trans {a b c : Disk} {paths : List String} (hab : Grown a b paths)
    (hbc : Grown b c paths) : Grown a c paths := by
  refine ⟨hab.kept.trans hbc.kept, ?_⟩
  intro place
  obtain hsame | ⟨hfree, hdir, hpath⟩ := hbc.added place
  · rw [hsame]
    obtain hsame | ⟨hfree, hdir, path, hpath, hplace⟩ := hab.added place
    · exact .inl hsame
    · exact .inr ⟨hfree, hdir, path, hpath, hbc.kept.place? hplace⟩
  · refine .inr ⟨?_, hdir, hpath⟩
    -- What the first disk had at the place, the second would have kept.
    cases hentry : a.tree.entry place with
    | none => rfl
    | some entry =>
        have hkept : b.tree.entry place = some entry := hab.kept.find? hentry
        rw [hfree] at hkept
        cases hkept

theorem grown_makeDir {disk after : Disk} {path : String} (h : disk.makeDir path = .ok after) :
    Grown disk after [path] := by
  obtain ⟨place, hfree, rfl, hstatus⟩ := makeDir_eq_ok h
  have htop : place ≠ [] := by
    rintro rfl
    cases hfree
  refine ⟨extends_insert hfree .dir, ?_⟩
  intro other
  by_cases hother : other = place
  · subst hother
    refine .inr ⟨hfree, ?_, path, List.mem_singleton_self path, place?_of_status hstatus⟩
    exact (find?_insert htop disk .dir other).trans (if_pos rfl)
  · exact .inl ((find?_insert htop disk .dir other).trans (if_neg hother))

/-- However far it gets, creating directories adds no others than those asked for. -/
theorem grown_makeDirs (disk : Disk) (paths : List String) :
    Grown disk (disk.makeDirs paths).2 paths := by
  induction paths generalizing disk with
  | nil => exact .refl disk []
  | cons path above ih =>
      have hfirst : [path] ⊆ path :: above := by simp
      have hrest : above ⊆ path :: above := List.subset_cons_self path above
      unfold makeDirs
      split
      · exact .refl disk _
      · cases hmade : disk.makeDir path with
        | ok made => exact (grown_makeDir hmade).mono hfirst
        | error fault =>
            have habove := (ih disk).mono hrest
            cases fault with
            | notFound =>
                rcases hparents : disk.makeDirs above with ⟨result, between⟩
                rw [hparents] at habove
                cases result with
                | error fault => exact habove
                | ok u =>
                    dsimp only
                    cases hagain : between.makeDir path with
                    | error fault => exact habove
                    | ok made => exact habove.trans ((grown_makeDir hagain).mono hfirst)
            | _ => exact .refl disk _

instance : FileTree Disk where
  Place := List String
  tree := tree
  look_keeps paths disk := rfl
  read_keeps paths disk := rfl
  write_refused {path bytes disk after fault} h := by
    have hwrite : runOn (Host.write path bytes) disk = match disk.write path bytes with
      | .ok disk => (.ok (), disk)
      | .error fault => (.error fault, disk) := rfl
    rw [hwrite] at h
    cases hwritten : disk.write path bytes with
    | ok written => simp [hwritten] at h
    | error fault =>
        simp only [hwritten, Prod.mk.injEq] at h
        rw [h.2]
  createDirAll_adds path disk := (grown_makeDirs disk (Paths.ancestors path)).added

end ResourceAssembler.Disk
