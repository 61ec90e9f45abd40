import GuestCode.Proofs.Disk.Tree
import Mathlib.Data.List.Perm.Subperm
import Mathlib.Data.List.Shortlex

/-!
# Visiting folders breadth first

Folders are visited from a queue: what is found in a folder waits behind all that waits already. On
a tree every folder below the first one is visited once, near ones before far ones, and folders of
one depth in the order of their names. A folder that is visited has a place of its own on the disk,
so one turn for each place is enough.

## Main statements

* `Disk.pairwise_breadthFirst`: the order of the visits.
* `Disk.breadthFirst_closed`: a visit that ends in time has left nothing out.
* `Disk.mem_visited`: which folders are visited.
* `Disk.mem_searched`, `Disk.pairwise_searched`: the entries that are come across, and their order.
-/

namespace GuestCode.Disk

/-! ## Queues -/

/-- What is visited from a queue, with one turn for each visit. What comes `next` after a visit
waits behind the others. -/
def breadthFirst {α : Type} (next : α → List α) : Nat → List α → List α
  | 0, _ => []
  | _, [] => []
  | turns + 1, x :: pending => x :: breadthFirst next turns (pending ++ next x)

section Queue

variable {α : Type} {next : α → List α} {turns : Nat} {pending : List α}

theorem breadthFirst_nil (next : α → List α) (turns : Nat) : breadthFirst next turns [] = [] := by
  cases turns <;> rfl

/-- What holds of all that waits, and is handed on, holds of all that is visited. -/
theorem forall_mem_breadthFirst {p : α → Prop} (hpending : ∀ x ∈ pending, p x)
    (hnext : ∀ x, p x → ∀ y ∈ next x, p y) : ∀ x ∈ breadthFirst next turns pending, p x := by
  induction turns generalizing pending with
  | zero => simp [breadthFirst]
  | succ turns ih =>
    cases pending with
    | nil => simp [breadthFirst]
    | cons x pending =>
      obtain ⟨hx, hothers⟩ := List.forall_mem_cons.mp hpending
      exact List.forall_mem_cons.mpr
        ⟨hx, ih (List.forall_mem_append.mpr ⟨hothers, hnext x hx⟩)⟩

/-- Visits that would end before one more turn have left nothing out. -/
theorem breadthFirst_closed (h : (breadthFirst next (turns + 1) pending).length ≤ turns) :
    (∀ x ∈ pending, x ∈ breadthFirst next turns pending) ∧
      ∀ x ∈ breadthFirst next turns pending, ∀ y ∈ next x,
        y ∈ breadthFirst next turns pending := by
  induction turns generalizing pending with
  | zero =>
    cases pending with
    | nil => simp [breadthFirst]
    | cons x pending => simp [breadthFirst] at h
  | succ turns ih =>
    cases pending with
    | nil => simp [breadthFirst]
    | cons x pending =>
      -- What comes next after the first visit waits from now on, so it is not left out either.
      rw [breadthFirst, List.length_cons, Nat.add_le_add_iff_right] at h
      obtain ⟨hwaiting, hclosed⟩ := ih h
      obtain ⟨hpending, hnext⟩ := List.forall_mem_append.mp hwaiting
      rw [breadthFirst]
      refine ⟨List.forall_mem_cons.mpr ⟨List.mem_cons_self, fun y hy =>
        List.mem_cons_of_mem x (hpending y hy)⟩, List.forall_mem_cons.mpr ⟨fun y hy =>
        List.mem_cons_of_mem x (hnext y hy), fun z hz y hy =>
        List.mem_cons_of_mem x (hclosed z hz y hy)⟩⟩

end Queue

/-! ## The order of visits -/

/-- The order of names below a folder: short lists first, lists of one length name by name. -/
abbrev Precedes : List String → List String → Prop := List.Shortlex (· < ·)

theorem precedes_append_singleton (names : List String) (name : String) :
    Precedes names (names ++ [name]) :=
  .of_length_lt (by simp)

theorem Precedes.trans {a b c : List String} (h : Precedes a b) (h' : Precedes b c) :
    Precedes a c := by
  rcases List.shortlex_def.mp h with hlength | ⟨hlength, hlex⟩
  · rcases List.shortlex_def.mp h' with hlength' | ⟨hlength', -⟩
    · exact .of_length_lt (hlength.trans hlength')
    · exact .of_length_lt (hlength' ▸ hlength)
  · rcases List.shortlex_def.mp h' with hlength' | ⟨hlength', hlex'⟩
    · exact .of_length_lt (hlength ▸ hlength')
    · exact .of_lex (hlength.trans hlength') (List.lt_trans hlex hlex')

theorem not_precedes_self (names : List String) : ¬Precedes names names := by
  intro h
  rcases List.shortlex_def.mp h with hlength | ⟨-, hlex⟩
  · exact absurd hlength (Nat.lt_irrefl _)
  · exact List.lt_irrefl names hlex

/-- The order of two lists of one length is that of all lists that start with them. -/
theorem lex_append_of_length_eq {names names' : List String} (h : List.Lex (· < ·) names names')
    (hlength : names.length = names'.length) (rest rest' : List String) :
    List.Lex (· < ·) (names ++ rest) (names' ++ rest') := by
  induction h with
  | nil => simp at hlength
  | cons _ ih => exact .cons (ih (Nat.succ.inj hlength))
  | rel hlt => exact .rel hlt

/-- What is in folders is in the order of the folders. -/
theorem Precedes.append_singleton {names names' : List String} (h : Precedes names names')
    (name name' : String) : Precedes (names ++ [name]) (names' ++ [name']) := by
  rcases List.shortlex_def.mp h with hlength | ⟨hlength, hlex⟩
  · exact .of_length_lt (by simpa using hlength)
  · exact .of_lex (by simpa using hlength) (lex_append_of_length_eq hlex hlength _ _)

/-- Names are in order, and what is in a folder comes after all of them. -/
structure InQueue (names names' : List String) : Prop where
  precedes : Precedes names names'
  beforeInner : ∀ name, Precedes names' (names ++ [name])

/-- What comes next after a folder is in the folder, in order. -/
structure Branches (next : List String → List (List String)) : Prop where
  inside : ∀ names, ∀ inner ∈ next names, ∃ name, inner = names ++ [name]
  inOrder : ∀ names, (next names).Pairwise Precedes

section Order

variable {next : List String → List (List String)} {turns : Nat} {pending : List (List String)}

/-- What is in the first folder of a queue comes after the others, and before what is in them. -/
theorem Branches.pairwise_turn (h : Branches next) {names : List String}
    (hqueue : (names :: pending).Pairwise InQueue) :
    (pending ++ next names).Pairwise InQueue := by
  obtain ⟨hfirst, hpending⟩ := List.pairwise_cons.mp hqueue
  refine List.pairwise_append.mpr ⟨hpending, ?_, fun other hother inner hinner => ?_⟩
  · refine List.Pairwise.imp_of_mem (fun {inner inner'} hinner hinner' hprecedes => ?_)
      (h.inOrder names)
    -- Two that are in the same folder: what is in the first is deeper than the second.
    obtain ⟨name, rfl⟩ := h.inside names inner hinner
    obtain ⟨name', rfl⟩ := h.inside names inner' hinner'
    exact ⟨hprecedes, fun more => .of_length_lt (by simp)⟩
  · obtain ⟨name, rfl⟩ := h.inside names inner hinner
    have hother' := hfirst other hother
    exact ⟨hother'.beforeInner name, fun more => hother'.precedes.append_singleton name more⟩

/-- Visits are in order: what comes first in the queue comes before all that is visited later. -/
theorem pairwise_breadthFirst (h : Branches next) (hqueue : pending.Pairwise InQueue) :
    (breadthFirst next turns pending).Pairwise Precedes := by
  induction turns generalizing pending with
  | zero => simp [breadthFirst]
  | succ turns ih =>
    cases pending with
    | nil => simp [breadthFirst]
    | cons names pending =>
      rw [breadthFirst]
      refine List.pairwise_cons.mpr ⟨?_, ih (h.pairwise_turn hqueue)⟩
      -- All that is visited later waits already or is inside of what waits.
      refine forall_mem_breadthFirst (List.forall_mem_append.mpr ⟨?_, ?_⟩) ?_
      · exact fun other hother => (List.rel_of_pairwise_cons hqueue hother).precedes
      · intro inner hinner
        obtain ⟨name, rfl⟩ := h.inside names inner hinner
        exact precedes_append_singleton names name
      · intro other hother inner hinner
        obtain ⟨name, rfl⟩ := h.inside other inner hinner
        exact hother.trans (precedes_append_singleton other name)

end Order

/-! ## Visits on a disk -/

variable {disk : Disk} {place : Place} {names : List String} {recursive : Bool}

/-- The names of the entries of a folder below a folder. -/
def entriesBelow (disk : Disk) (place : Place) (names : List String) : List (List String) :=
  (disk.sortedNamesIn (place ++ names)).map fun name => names ++ [name]

/-- The names of the folders among them, if folders in folders are wanted. -/
def foldersBelow (disk : Disk) (recursive : Bool) (place : Place) (names : List String) :
    List (List String) :=
  if recursive then
    (disk.entriesBelow place names).filter fun inner => disk.entry? (place ++ inner) == some .folder
  else []

/-- The folders that are visited from a folder, with one turn for each place and one for the root.
-/
def visited (disk : Disk) (recursive : Bool) (place : Place) : List (List String) :=
  breadthFirst (disk.foldersBelow recursive place) (disk.entries.length + 1) [[]]

/-- The entries that are come across in these folders. -/
def searched (disk : Disk) (recursive : Bool) (place : Place) : List (List String) :=
  (disk.visited recursive place).flatMap (disk.entriesBelow place)

theorem mem_entriesBelow {inner : List String} : inner ∈ disk.entriesBelow place names ↔
    ∃ name entry, inner = names ++ [name] ∧ disk.entry? (place ++ inner) = some entry := by
  constructor
  · intro h
    obtain ⟨name, hname, rfl⟩ := List.mem_map.mp h
    obtain ⟨entry, hentry⟩ := mem_sortedNamesIn.mp hname
    exact ⟨name, entry, rfl, by rwa [← List.append_assoc]⟩
  · rintro ⟨name, entry, rfl, hentry⟩
    rw [← List.append_assoc] at hentry
    exact List.mem_map.mpr ⟨name, mem_sortedNamesIn.mpr ⟨entry, hentry⟩, rfl⟩

theorem pairwise_entriesBelow (h : PlacedOnce disk) (place : Place) (names : List String) :
    (disk.entriesBelow place names).Pairwise Precedes :=
  List.pairwise_map.mpr ((pairwise_sortedNamesIn h _).imp fun hlt =>
    .of_lex (by simp) (List.Lex.append_left _ (.rel hlt) _))

theorem mem_foldersBelow {inner : List String} : inner ∈ disk.foldersBelow recursive place names ↔
    recursive = true ∧ ∃ name, inner = names ++ [name] ∧
      disk.entry? (place ++ inner) = some .folder := by
  unfold foldersBelow
  split
  · next hrecursive =>
    rw [List.mem_filter, mem_entriesBelow, beq_iff_eq]
    constructor
    · rintro ⟨⟨name, -, rfl, -⟩, hfolder⟩
      exact ⟨hrecursive, name, rfl, hfolder⟩
    · rintro ⟨-, name, rfl, hfolder⟩
      exact ⟨⟨name, _, rfl, hfolder⟩, hfolder⟩
  · next hflat => simp [hflat]

theorem branches_foldersBelow (h : PlacedOnce disk) (recursive : Bool) (place : Place) :
    Branches (disk.foldersBelow recursive place) where
  inside names inner hinner := by
    obtain ⟨-, name, hname, -⟩ := mem_foldersBelow.mp hinner
    exact ⟨name, hname⟩
  inOrder names := by
    unfold foldersBelow
    split
    · exact (pairwise_entriesBelow h place names).filter _
    · exact .nil

theorem pairwise_visits (h : PlacedOnce disk) (recursive : Bool) (place : Place) (turns : Nat) :
    (breadthFirst (disk.foldersBelow recursive place) turns [[]]).Pairwise Precedes :=
  pairwise_breadthFirst (branches_foldersBelow h recursive place) (List.pairwise_singleton _ _)

/-- What is visited is the folder itself, or a folder below it. -/
theorem isFolderBelow_of_mem_visits (hroot : disk.entry? place = some .folder) {turns : Nat} :
    ∀ names ∈ breadthFirst (disk.foldersBelow recursive place) turns [[]],
      disk.IsFolderBelow place names ∧ (recursive = true ∨ names = []) := by
  refine forall_mem_breadthFirst ?_ ?_
  · exact List.forall_mem_singleton.mpr ⟨.self hroot, .inr rfl⟩
  · rintro names ⟨hfolder, -⟩ inner hinner
    obtain ⟨hrecursive, name, rfl, hthere⟩ := mem_foldersBelow.mp hinner
    exact ⟨.inner hfolder hthere, .inl hrecursive⟩

/-- There are no more visits than places, and one for the root. -/
theorem length_visits_le (h : PlacedOnce disk) (hroot : disk.entry? place = some .folder)
    (turns : Nat) :
    (breadthFirst (disk.foldersBelow recursive place) turns [[]]).length ≤
      disk.entries.length + 1 := by
  -- The order is strict, so nothing is visited twice, and each visit is to a place of its own.
  have hnodup : (breadthFirst (disk.foldersBelow recursive place) turns [[]]).Nodup := by
    refine (pairwise_visits h recursive place turns).imp fun {names names'} hprecedes => ?_
    rintro rfl
    exact not_precedes_self names hprecedes
  have hplaces : ∀ q ∈ (breadthFirst (disk.foldersBelow recursive place) turns [[]]).map
      (place ++ ·), q ∈ place :: disk.entries.map Prod.fst := by
    intro q hq
    obtain ⟨names, hnames, rfl⟩ := List.mem_map.mp hq
    obtain ⟨hfolder, -⟩ := isFolderBelow_of_mem_visits hroot names hnames
    by_cases hne : names = []
    · simp [hne]
    · exact List.mem_cons_of_mem _ (hfolder.isBelow hne).mem_places
  have hcount := (List.Nodup.subperm
    (hnodup.map fun _ _ => List.append_cancel_left) hplaces).length_le
  simpa using hcount

/-- Every folder below a folder is visited, if folders in folders are wanted. -/
theorem mem_visited (h : PlacedOnce disk) (hroot : disk.entry? place = some .folder) :
    names ∈ disk.visited recursive place ↔
      disk.IsFolderBelow place names ∧ (recursive = true ∨ names = []) := by
  refine ⟨isFolderBelow_of_mem_visits hroot names, ?_⟩
  rintro ⟨hfolder, hwanted⟩
  -- The turns are enough, so the visits are closed; then by induction on the way to the folder.
  obtain ⟨hfirst, hclosed⟩ := breadthFirst_closed (length_visits_le h hroot _)
  induction hfolder with
  | self => exact hfirst [] List.mem_cons_self
  | @inner names name outer folder ih =>
    have hrecursive : recursive = true := by simpa using hwanted
    exact hclosed names (ih (.inl hrecursive) hfirst hclosed) _
      (mem_foldersBelow.mpr ⟨hrecursive, name, rfl, folder⟩)

/-- An entry below a folder, or just one that is in it. -/
structure IsSearched (disk : Disk) (recursive : Bool) (place : Place) (names : List String)
    (entry : Entry) : Prop extends IsBelow disk place names entry where
  wanted : recursive = true ∨ names.length = 1

/-- What is come across is what is searched for. -/
theorem mem_searched (h : PlacedOnce disk) (hroot : disk.entry? place = some .folder) :
    names ∈ disk.searched recursive place ↔
      ∃ entry, disk.IsSearched recursive place names entry := by
  rw [searched, List.mem_flatMap]
  constructor
  · rintro ⟨folder, hfolder, hnames⟩
    obtain ⟨name, entry, rfl, hthere⟩ := mem_entriesBelow.mp hnames
    obtain ⟨hbelow, hwanted⟩ := (mem_visited h hroot).mp hfolder
    refine ⟨entry, ⟨⟨folder, name, rfl, hbelow⟩, hthere⟩, hwanted.imp_right ?_⟩
    rintro rfl
    rfl
  · rintro ⟨entry, ⟨⟨folder, name, rfl, hbelow⟩, hthere⟩, hwanted⟩
    refine ⟨folder, (mem_visited h hroot).mpr ⟨hbelow, hwanted.imp_right fun hlength => ?_⟩,
      mem_entriesBelow.mpr ⟨name, entry, rfl, hthere⟩⟩
    simpa using hlength

/-- They are come across in order, each once. -/
theorem pairwise_searched (h : PlacedOnce disk) (recursive : Bool) (place : Place) :
    (disk.searched recursive place).Pairwise Precedes := by
  refine List.pairwise_flatMap.mpr ⟨fun names _ => pairwise_entriesBelow h place names,
    (pairwise_visits h recursive place _).imp fun hprecedes inner hinner inner' hinner' => ?_⟩
  obtain ⟨name, -, rfl, -⟩ := mem_entriesBelow.mp hinner
  obtain ⟨name', -, rfl, -⟩ := mem_entriesBelow.mp hinner'
  exact hprecedes.append_singleton name name'

/-- The entries of the folder itself come first. -/
theorem searched_prefix (disk : Disk) (recursive : Bool) (place : Place) :
    disk.searched false place <+: disk.searched recursive place := by
  have hflat : disk.visited false place = [[]] := by
    simp [visited, foldersBelow, breadthFirst, breadthFirst_nil]
  rw [searched, hflat, searched, visited, breadthFirst]
  simp

end GuestCode.Disk
