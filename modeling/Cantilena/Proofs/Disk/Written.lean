import Cantilena.Disk
import Cantilena.Proofs.Outcome

/-!
# What writing a file changes

A file that has been written is read back under the same path, and everything else stands as it
stood. A write gets only to places one name behind a folder, so that the file it puts there makes no
folder of anything that was none.

* `lookup_put`, `any_put` -- files with one more;
* `isFolder_iff`, `isFolder_on_way` -- folders, and the places on the way to them;
* `IsReachable`, `isReachable_of_follow` -- where the names of a path can lead;
* `write_eq_ok` -- all that a write does that goes well;
* `standing_put` -- what stands on a disk with one more file;
* `Written`, `written_of_write` -- what has been written is read back, and the rest is kept.
-/

namespace Cantilena.Disk

variable {d : Disk} {path : String} {place other : Place} {bytes : List UInt8}

/-! ## 1. Files -/

theorem lookup_put (place other : Place) (bytes : List UInt8)
    (files : List (Place × List UInt8)) :
    (put place bytes files).lookup other
      = if other = place then some bytes else files.lookup other := by
  have hcons (rest : List (Place × List UInt8)) (first : Place) (old : List UInt8) :
      ((first, old) :: rest).lookup other
        = if other = first then some old else rest.lookup other := by
    by_cases h : other = first
    · rw [if_pos h, h, List.lookup_cons_self]
    · rw [if_neg h, List.lookup_cons, beq_eq_false_iff_ne.mpr h]
  induction files with
  | nil => exact hcons [] place bytes
  | cons f rest ih =>
    rw [put]
    split
    · rename_i hf
      rw [hcons, hcons, hf]
      split <;> rfl
    · rename_i hf
      rw [hcons, hcons, ih]
      split
      · rename_i hother
        rw [if_neg (hother ▸ hf)]
      · rfl

theorem any_put (p : Place → Bool) (place : Place) (bytes : List UInt8)
    (files : List (Place × List UInt8)) :
    (put place bytes files).any (fun f => p f.1) = (files.any (fun f => p f.1) || p place) := by
  induction files with
  | nil => simp [put]
  | cons f rest ih =>
    rw [put]
    by_cases hf : f.1 = place
    · rw [if_pos hf, List.any_cons, List.any_cons, hf]
      cases p place <;> simp
    · rw [if_neg hf, List.any_cons, List.any_cons, ih, Bool.or_assoc]

/-! ## 2. Folders -/

theorem standing_eq_folder : d.standing place = .folder ↔ d.isFolder place = true := by
  unfold standing
  split
  · simp [*]
  · split <;> simp [*]

theorem isFolder_iff : d.isFolder place = true ↔
    place <+: d.working ∨ (∃ folder ∈ d.folders, place <+: folder)
      ∨ ∃ f ∈ d.files, place <+: f.1 ∧ place ≠ f.1 := by
  simp only [isFolder, Bool.or_eq_true, List.any_eq_true, Bool.and_eq_true, bne_iff_ne,
    List.isPrefixOf_iff_prefix, or_assoc]

/-- What is on the way to a folder is a folder. -/
theorem isFolder_on_way (h : other <+: place) (hplace : d.isFolder place = true) :
    d.isFolder other = true := by
  rw [isFolder_iff] at hplace ⊢
  rcases hplace with hworking | ⟨folder, hmem, hfolder⟩ | ⟨f, hmem, hfile, hne⟩
  · exact .inl (h.trans hworking)
  · exact .inr (.inl ⟨folder, hmem, h.trans hfolder⟩)
  · refine .inr (.inr ⟨f, hmem, h.trans hfile, ?_⟩)
    rintro rfl
    exact hne (hfile.eq_of_length_le h.length_le)

theorem isFolder_origin (d : Disk) (path : String) :
    d.isFolder (origin d.working path) = true := by
  refine isFolder_iff.mpr (.inl ?_)
  unfold origin
  split
  · exact List.nil_prefix
  · exact List.prefix_rfl

/-! ## 3. Where paths lead -/

/-- A place that a path can lead to: a folder, or one name behind a folder. -/
def IsReachable (d : Disk) (place : Place) : Prop :=
  d.isFolder place = true ∨ ∃ folder name, d.isFolder folder = true ∧ place = folder ++ [name]

/-- Only folders are gone through. -/
theorem enter_eq_ok {name : String} {next : Place} :
    d.enter path place name = .ok next ↔
      d.isFolder place = true ∧ ¬ longestName < name.utf8ByteSize ∧ next = place.step name := by
  rw [enter, ← standing_eq_folder]
  split
  · simp [*]
  · simp [*]
  · split <;> simp [*, eq_comm]

theorem isReachable_of_enter {name : String} {next : Place}
    (h : d.enter path place name = .ok next) : d.IsReachable next := by
  obtain ⟨hfolder, -, rfl⟩ := enter_eq_ok.mp h
  unfold Place.step
  split
  · exact .inl hfolder
  · split
    · exact .inl (isFolder_on_way (List.dropLast_prefix place) hfolder)
    · exact .inr ⟨place, name, hfolder, rfl⟩

/-- Each name on the way goes behind a folder, whatever the names in front of it did. -/
theorem isReachable_of_foldlM {names : List String} {start : Place} (hstart : d.IsReachable start)
    (h : names.foldlM (d.enter path) start = .ok place) : d.IsReachable place := by
  induction names generalizing start with
  | nil =>
    obtain rfl := pure_eq_ok.mp h
    exact hstart
  | cons name names ih =>
    rw [List.foldlM_cons] at h
    obtain ⟨next, hnext, h⟩ := bind_eq_ok.mp h
    exact ih (isReachable_of_enter hnext) h

theorem follow_eq_ok {names : List String} :
    d.follow path names = .ok place ↔
      (path.toList.contains '\x00' = false ∧ path ≠ "" ∧ ¬ longestPath < path.utf8ByteSize)
        ∧ names.foldlM (d.enter path) (origin d.working path) = .ok place := by
  unfold follow
  cases path.toList.contains '\x00' with
  | true => simp
  | false =>
    rw [if_neg Bool.false_ne_true]
    split
    · simp [*]
    · split <;> simp [*]

theorem isReachable_of_follow {names : List String} (h : d.follow path names = .ok place) :
    d.IsReachable place :=
  isReachable_of_foldlM (.inl (isFolder_origin d path)) (follow_eq_ok.mp h).2

section

variable {after : Disk} (hworking : after.working = d.working)
  (hfolders : ∀ place, d.isFolder place = true → after.isFolder place = true)

include hfolders in
theorem foldlM_of_folders {names : List String} {start : Place}
    (h : names.foldlM (d.enter path) start = .ok place) :
    names.foldlM (after.enter path) start = .ok place := by
  induction names generalizing start with
  | nil => exact h
  | cons name names ih =>
    rw [List.foldlM_cons] at h ⊢
    obtain ⟨next, hnext, h⟩ := bind_eq_ok.mp h
    obtain ⟨hfolder, hname⟩ := enter_eq_ok.mp hnext
    exact bind_eq_ok.mpr ⟨next, enter_eq_ok.mpr ⟨hfolders start hfolder, hname⟩, ih h⟩

include hworking hfolders in
/-- A path leads where it led if the folders on the way still are there. -/
theorem follow_of_folders {names : List String} (h : d.follow path names = .ok place) :
    after.follow path names = .ok place := by
  obtain ⟨hpath, hway⟩ := follow_eq_ok.mp h
  rw [← hworking] at hway
  exact follow_eq_ok.mpr ⟨hpath, foldlM_of_folders hfolders hway⟩

end

/-! ## 4. Writing -/

/-- A path whose last name is not empty is followed by all its names. -/
theorem namesToWrite_eq (h : (namesOn path).getLast? ≠ some "") :
    namesToWrite path = namesOn path := by
  unfold namesToWrite
  rw [← List.head?_reverse] at h
  have hkept : (namesOn path).reverse.dropWhile (· = "") = (namesOn path).reverse := by
    cases hnames : (namesOn path).reverse with
    | nil => rfl
    | cons last names =>
      rw [hnames, List.head?_cons] at h
      exact List.dropWhile_cons_of_neg (by simpa using fun he => h (congrArg some he))
  rw [hkept, List.reverse_reverse]

/-- **All that a write does that goes well**: it puts a file at the place that the path names. -/
theorem write_eq_ok {after : Disk} :
    d.write path bytes = .ok after ↔ ∃ place, d.locate path = .ok place
      ∧ (namesOn path).getLast? ≠ some "" ∧ d.isFolder place = false
      ∧ after = { d with files := put place bytes d.files } := by
  unfold write locate
  rw [bind_eq_ok]
  constructor
  · rintro ⟨place, hfollow, h⟩
    obtain ⟨hfile, h⟩ := check_eq_ok.mp h
    rw [not_or, standing_eq_folder, Bool.not_eq_true] at hfile
    rw [namesToWrite_eq hfile.1] at hfollow
    exact ⟨place, hfollow, hfile.1, hfile.2, (pure_eq_ok.mp h).symm⟩
  · rintro ⟨place, hfollow, hlast, hfile, rfl⟩
    refine ⟨place, (namesToWrite_eq hlast).symm ▸ hfollow, check_eq_ok.mpr ⟨?_, rfl⟩⟩
    rw [not_or, standing_eq_folder, Bool.not_eq_true]
    exact ⟨hlast, hfile⟩

/-- A file behind a folder makes no folder of what was none. -/
theorem isFolder_put {folder : Place} {name : String} (hfolder : d.isFolder folder = true) :
    ({ d with files := put (folder ++ [name]) bytes d.files } : Disk).isFolder other
      = d.isFolder other := by
  unfold isFolder
  rw [any_put fun file => other.isPrefixOf file && other != file, ← Bool.or_assoc]
  cases hnew : (other.isPrefixOf (folder ++ [name]) && other != folder ++ [name]) with
  | false => rw [Bool.or_false]
  | true =>
    rw [Bool.and_eq_true, List.isPrefixOf_iff_prefix, bne_iff_ne] at hnew
    have hbefore : other <+: folder :=
      (List.prefix_concat_iff.mp hnew.1).resolve_left hnew.2
    rw [Bool.or_true]
    exact (isFolder_on_way hbefore hfolder).symm

/-- **What stands on a disk with one more file**: the file, and what stood there before. -/
theorem standing_put {folder : Place} {name : String} (hfolder : d.isFolder folder = true)
    (hfile : d.isFolder (folder ++ [name]) = false) :
    ({ d with files := put (folder ++ [name]) bytes d.files } : Disk).standing other
      = if other = folder ++ [name] then .file bytes else d.standing other := by
  unfold standing
  rw [isFolder_put hfolder, file?, lookup_put]
  by_cases h : other = folder ++ [name]
  · rw [h, hfile, if_pos rfl, if_pos rfl]
    rfl
  · rw [if_neg h, if_neg h]
    rfl

/-- A disk after a file has been written under a path: it is read back, and whatever stood at any
    other place stands there still. -/
structure Written (d : Disk) (path : String) (bytes : List UInt8) (after : Disk) : Prop where
  read : after.read path = .ok bytes
  kept : ∀ other, d.locate path ≠ .ok other → after.standing other = d.standing other

/-- **What has been written is read back, and the rest is kept.** -/
theorem written_of_write {after : Disk} (h : d.write path bytes = .ok after) :
    d.Written path bytes after := by
  obtain ⟨place, hlocate, -, hfile, hafter⟩ := write_eq_ok.mp h
  obtain hplace | ⟨folder, name, hfolder, rfl⟩ := isReachable_of_follow hlocate
  · rw [hplace] at hfile
    cases hfile
  · have hworking : after.working = d.working := by rw [hafter]
    have hfolders (q : Place) (hq : d.isFolder q = true) : after.isFolder q = true := by
      rw [hafter, isFolder_put hfolder, hq]
    have hstanding (q : Place) :
        after.standing q = if q = folder ++ [name] then .file bytes else d.standing q := by
      rw [hafter, standing_put hfolder hfile]
    refine ⟨bind_eq_ok.mpr ⟨_, follow_of_folders hworking hfolders hlocate, ?_⟩, ?_⟩
    · rw [hstanding, if_pos rfl]
      rfl
    · intro other hother
      rw [hstanding, if_neg]
      rintro rfl
      exact hother hlocate

end Cantilena.Disk
