import GuestCode.Disk.Access

/-!
# Following paths step by step

The successful ways through a disk as derivations: a name stands for the place itself, leads to the
folder that the place is in, to what is there under the name, or through a link. Where a path leads
is then followed from one disk to another by induction on the derivation, without the ways that
fail.

## Main statements

* `Disk.follow_eq_ok_iff`: a path leads somewhere exactly if there is a derivation.
* `Disk.Leads.grown`: what has been found stays where it is while a disk grows.
* `Disk.Leads.put_vacant`: what is put at the end of a path is found there.
* `Disk.Leads.exists_folder`: a last name that is no link is looked up in the folder before it.
-/

namespace GuestCode.Disk

/-- The place of a location. -/
def Location.place : Location → Place
  | found place _ => place
  | vacant place => place

/-- What is at a location, if anything is. -/
def Location.entry? : Location → Option Entry
  | found _ entry => some entry
  | vacant _ => none

variable {disk disk' : Disk} {goal : Goal} {links : Nat} {place : Place} {names : List String}

/-! ## Entries -/

theorem lookup_replace (entries : List (Place × Entry)) (place q : Place) (entry : Entry) :
    (entries.map fun e => if e.1 == place then (place, entry) else e).lookup q =
      if q = place then (entries.lookup place).map fun _ => entry else entries.lookup q := by
  induction entries with
  | nil => simp
  | cons e rest ih =>
    obtain ⟨p, old⟩ := e
    rw [List.map_cons]
    -- Whether the first entry is the one that is replaced, and whether it is looked for.
    by_cases hp : p = place
    · subst hp
      by_cases hq : q = p
      · simp [hq]
      · have hne : (q == p) = false := by simpa using hq
        simpa [List.lookup_cons, hq, hne] using ih
    · have hkept : (p == place) = false := by simpa using hp
      rw [hkept, if_neg Bool.false_ne_true, List.lookup_cons, List.lookup_cons, ih]
      by_cases hq : q = place
      · have hother : (place == p) = false := by simpa using Ne.symm hp
        simp [hq, hother]
      · rw [if_neg hq, if_neg hq, List.lookup_cons]

theorem ne_nil_of_vacant (h : disk.entry? place = none) : place ≠ [] := by
  rintro rfl
  cases h

theorem ne_nil_of_file {octets : List UInt8} (h : disk.entry? place = some (.file octets)) :
    place ≠ [] := by
  rintro rfl
  cases h

theorem entry?_put (hplace : place ≠ []) (q : Place) (entry : Entry) :
    Disk.entry? (disk.put place entry) q = if q = place then some entry else disk.entry? q := by
  -- The root is a folder on every disk, without an entry for it.
  by_cases hroot : q = []
  · rw [hroot, if_neg hplace.symm]
    rfl
  · have hlookup : ∀ d : Disk, d.entry? q = d.entries.lookup q := fun d => by
      simp [hroot, Disk.entry?]
    rw [hlookup, hlookup]
    unfold put
    -- An entry for the place is replaced, or one is added behind the others.
    split
    · next hany =>
      have hsome : ((disk.entries.lookup place).map fun _ => entry) = some entry := by
        cases hfound : disk.entries.lookup place with
        | some old => rfl
        | none =>
          obtain ⟨e, hmem, he⟩ := List.any_eq_true.mp hany
          have hne := List.lookup_eq_none_iff.mp hfound e hmem
          simp [eq_of_beq he] at hne
      rw [lookup_replace, hsome]
    · next hnone =>
      have hmissing : disk.entries.lookup place = none := by
        rw [List.lookup_eq_none_iff]
        intro e hmem
        refine bne_iff_ne.mpr fun heq => hnone (List.any_eq_true.mpr ⟨e, hmem, ?_⟩)
        exact beq_iff_eq.mpr heq.symm
      dsimp only
      rw [List.lookup_append]
      by_cases hq : q = place
      · simp [hq, hmissing]
      · have hne : (q == place) = false := by simpa using hq
        simp [hq, List.lookup_cons, hne]

/-! ## Derivations -/

/-- A name that is looked up in the folder it stands after. -/
structure IsLookedUp (goal : Goal) (name : String) (rest : List String) : Prop where
  notSelf : name ≠ "" ∧ name ≠ "."
  notUp : name ≠ ".."
  noSlash : goal = .file → rest ≠ [""]
  short : isTooLong name = false

/-- The successful ways of following names from a place. -/
inductive Leads (disk : Disk) (goal : Goal) : Nat → Place → List String → Location → Prop where
  | found {links : Nat} {place : Place} {entry : Entry} (there : disk.entry? place = some entry) :
      Leads disk goal links place [] (.found place entry)
  | vacant {links : Nat} {place : Place} (notThere : disk.entry? place = none) :
      Leads disk goal links place [] (.vacant place)
  | self {links : Nat} {place : Place} {name : String} {rest : List String} {l : Location}
      (folder : disk.entry? place = some .folder) (isSelf : name = "" ∨ name = ".")
      (others : Leads disk goal links place rest l) :
      Leads disk goal links place (name :: rest) l
  | up {links : Nat} {place : Place} {rest : List String} {l : Location}
      (folder : disk.entry? place = some .folder)
      (others : Leads disk goal links place.dropLast rest l) :
      Leads disk goal links place (".." :: rest) l
  | missing {links : Nat} {place : Place} {name : String}
      (folder : disk.entry? place = some .folder) (lookedUp : IsLookedUp goal name [])
      (notThere : disk.entry? (place ++ [name]) = none) :
      Leads disk goal links place [name] (.vacant (place ++ [name]))
  | link {links : Nat} {place : Place} {name target : String}
      (folder : disk.entry? place = some .folder) (lookedUp : IsLookedUp goal name [])
      (there : disk.entry? (place ++ [name]) = some (.link target)) (wanted : goal = .entry) :
      Leads disk goal links place [name] (.found (place ++ [name]) (.link target))
  | through {links : Nat} {place : Place} {name target : String} {rest : List String}
      {l : Location} (folder : disk.entry? place = some .folder)
      (lookedUp : IsLookedUp goal name rest)
      (there : disk.entry? (place ++ [name]) = some (.link target))
      (notWanted : rest = [] → goal ≠ .entry)
      (others : Leads disk goal links (if target.startsWith "/" then [] else place)
        (targetNames target ++ rest) l) :
      Leads disk goal (links + 1) place (name :: rest) l
  | into {links : Nat} {place : Place} {name : String} {entry : Entry} {rest : List String}
      {l : Location} (folder : disk.entry? place = some .folder)
      (lookedUp : IsLookedUp goal name rest)
      (there : disk.entry? (place ++ [name]) = some entry)
      (noLink : ∀ target, entry ≠ .link target)
      (others : Leads disk goal links (place ++ [name]) rest l) :
      Leads disk goal links place (name :: rest) l

theorem follow_lookedUp {name : String} {rest : List String}
    (hfolder : disk.entry? place = some .folder) (h : IsLookedUp goal name rest) :
    disk.follow goal links place (name :: rest) =
      match disk.entry? (place ++ [name]) with
      | none => if rest.isEmpty then .ok (.vacant (place ++ [name])) else .error .missing
      | some (.link target) =>
        if rest.isEmpty && goal == .entry then .ok (.found (place ++ [name]) (.link target))
        else
          match links with
          | 0 => .error .tooManyLinks
          | links + 1 =>
            disk.follow goal links (if target.startsWith "/" then [] else place)
              (targetNames target ++ rest)
      | some _ => disk.follow goal links (place ++ [name]) rest := by
  have hself : ¬(name == "" || name == ".") = true := by simpa using h.notSelf
  have hup : ¬(name == "..") = true := by simpa using h.notUp
  have hslash : ¬(goal == .file && rest == [""]) = true := by simpa using h.noSlash
  have hshort : ¬isTooLong name = true := by simpa using h.short
  rw [follow, hfolder]
  dsimp only
  exact ((if_neg hself).trans (if_neg hup)).trans ((if_neg hslash).trans (if_neg hshort))

theorem IsLookedUp.of_tests {name : String} {rest : List String}
    (hself : ¬(name == "" || name == ".") = true) (hup : ¬(name == "..") = true)
    (hslash : ¬(goal == .file && rest == [""]) = true) (hshort : ¬isTooLong name = true) :
    IsLookedUp goal name rest where
  notSelf := by simpa using hself
  notUp := by simpa using hup
  noSlash := by simpa using hslash
  short := by simpa using hshort

theorem leads_of_follow {l : Location} (h : disk.follow goal links place names = .ok l) :
    disk.Leads goal links place names l := by
  -- The cases that are not named fail.
  fun_induction disk.follow goal links place names with
  | case1 links place entry there =>
    cases h
    exact .found there
  | case2 links place notThere =>
    cases h
    exact .vacant notThere
  | case6 links place name rest folder isSelf ih =>
    exact .self folder (by simpa using isSelf) (ih h)
  | case7 links place name rest folder _ isUp ih =>
    rw [beq_iff_eq.mp isUp]
    exact .up folder (ih h)
  | case10 links place name rest folder hself hup hslash hshort next notThere hrest =>
    cases h
    obtain rfl := List.isEmpty_iff.mp hrest
    exact .missing folder (.of_tests hself hup hslash hshort) notThere
  | case12 links place name rest folder hself hup hslash hshort next target there hwanted =>
    cases h
    obtain ⟨hrest, hgoal⟩ := Bool.and_eq_true_iff.mp hwanted
    obtain rfl := List.isEmpty_iff.mp hrest
    exact .link folder (.of_tests hself hup hslash hshort) there (beq_iff_eq.mp hgoal)
  | case14 place name rest folder hself hup hslash hshort next target there hgo links start ih =>
    exact .through folder (.of_tests hself hup hslash hshort) there (by simpa using hgo) (ih h)
  | case15 links place name rest folder hself hup hslash hshort next entry noLink there ih =>
    exact .into folder (.of_tests hself hup hslash hshort) there noLink (ih h)
  | _ => cases h

theorem Leads.follow_eq {l : Location} (h : disk.Leads goal links place names l) :
    disk.follow goal links place names = .ok l := by
  induction h with
  | found there => rw [follow, there]
  | vacant notThere => rw [follow, notThere]
  | self folder isSelf _ ih =>
    rw [follow, folder]
    simpa [isSelf] using ih
  | up folder _ ih =>
    rw [follow, folder]
    simpa using ih
  | missing folder lookedUp notThere =>
    rw [follow_lookedUp folder lookedUp, notThere]
    rfl
  | link folder lookedUp there wanted =>
    rw [follow_lookedUp folder lookedUp, there]
    simp [wanted]
  | @through _ _ _ _ rest _ folder lookedUp there notWanted _ ih =>
    have hgo : ¬(rest.isEmpty && goal == .entry) = true := by simpa using notWanted
    rw [follow_lookedUp folder lookedUp, there]
    dsimp only
    rw [if_neg hgo]
    exact ih
  | @into _ _ _ entry _ _ folder lookedUp there noLink _ ih =>
    rw [follow_lookedUp folder lookedUp, there]
    cases entry with
    | link target => exact absurd rfl (noLink target)
    | file octets => exact ih
    | folder => exact ih

/-- A path leads somewhere exactly if there is a derivation. -/
theorem follow_eq_ok_iff {l : Location} :
    disk.follow goal links place names = .ok l ↔ disk.Leads goal links place names l :=
  ⟨leads_of_follow, Leads.follow_eq⟩

/-! ## Where paths lead -/

namespace Leads

variable {l : Location}

/-- What is said to be at a place is there. -/
theorem entry?_eq (h : disk.Leads goal links place names l) :
    disk.entry? l.place = l.entry? := by
  induction h with
  | found there => exact there
  | vacant notThere => exact notThere
  | self _ _ _ ih => exact ih
  | up _ _ ih => exact ih
  | missing _ _ notThere => exact notThere
  | link _ _ there _ => exact there
  | through _ _ _ _ _ ih => exact ih
  | into _ _ _ _ _ ih => exact ih

/-- Where a file can be written, a path leads to the same place for any purpose. -/
theorem thing (h : disk.Leads .file links place names l) :
    disk.Leads .thing links place names l := by
  have hthing : ∀ {name rest}, IsLookedUp .file name rest → IsLookedUp .thing name rest :=
    fun h => ⟨h.notSelf, h.notUp, nofun, h.short⟩
  induction h with
  | found there => exact .found there
  | vacant notThere => exact .vacant notThere
  | self folder isSelf _ ih => exact .self folder isSelf ih
  | up folder _ ih => exact .up folder ih
  | missing folder lookedUp notThere => exact .missing folder (hthing lookedUp) notThere
  | link _ _ _ wanted => cases wanted
  | through folder lookedUp there _ _ ih => exact .through folder (hthing lookedUp) there nofun ih
  | into folder lookedUp there noLink _ ih => exact .into folder (hthing lookedUp) there noLink ih

/-- A last name that is none of those that stand for other places is looked up in the folder that the
names before it lead to. -/
theorem exists_folder_of_last {name : String} (hself : name ≠ "" ∧ name ≠ ".") (hup : name ≠ "..")
    (h : disk.Leads .thing links place (names ++ [name]) l) :
    ∃ q, disk.Leads .thing links place names (.found q .folder) ∧
      (l.place = q ++ [name] ∨ ∃ target, disk.entry? (q ++ [name]) = some (.link target)) := by
  generalize hall : names ++ [name] = all at h
  have hshorter : ∀ {first : String} {rest others : List String},
      IsLookedUp .thing first rest → IsLookedUp .thing first others :=
    fun h => ⟨h.notSelf, h.notUp, nofun, h.short⟩
  -- A link on the way puts other names before the last one, so the induction is for all of them.
  induction h generalizing names with
  | found => simp at hall
  | vacant => simp at hall
  | self folder isSelf _ ih =>
    cases names with
    | nil =>
      obtain ⟨rfl, -⟩ := List.cons.inj hall
      exact absurd isSelf (not_or.mpr hself)
    | cons first names =>
      obtain ⟨rfl, hrest⟩ := List.cons.inj hall
      obtain ⟨q, hleads, hplace⟩ := ih hrest
      exact ⟨q, .self folder isSelf hleads, hplace⟩
  | up folder _ ih =>
    cases names with
    | nil => exact absurd (List.cons.inj hall).1 hup
    | cons first names =>
      obtain ⟨rfl, hrest⟩ := List.cons.inj hall
      obtain ⟨q, hleads, hplace⟩ := ih hrest
      exact ⟨q, .up folder hleads, hplace⟩
  | missing folder =>
    cases names with
    | nil =>
      obtain ⟨rfl, -⟩ := List.cons.inj hall
      exact ⟨_, .found folder, .inl rfl⟩
    | cons first names => simp at hall
  | link _ _ _ wanted => cases wanted
  | @through _ _ _ target _ _ folder lookedUp there _ _ ih =>
    cases names with
    | nil =>
      obtain ⟨rfl, -⟩ := List.cons.inj hall
      exact ⟨_, .found folder, .inr ⟨target, there⟩⟩
    | cons first names =>
      -- The names of the target come before the others, and the last one stays the last.
      obtain ⟨rfl, hrest⟩ := List.cons.inj hall
      have hnames : targetNames target ++ names ++ [name] = _ :=
        (List.append_assoc _ _ _).trans (congrArg (targetNames target ++ ·) hrest)
      obtain ⟨q, hleads, hplace⟩ := ih hnames
      exact ⟨q, .through folder (hshorter lookedUp) there nofun hleads, hplace⟩
  | @into _ place _ _ _ _ folder lookedUp there noLink others ih =>
    cases names with
    | nil =>
      obtain ⟨rfl, rfl⟩ := List.cons.inj hall
      cases others with
      | found => exact ⟨place, .found folder, .inl rfl⟩
      | vacant => exact ⟨place, .found folder, .inl rfl⟩
    | cons first names =>
      obtain ⟨rfl, hrest⟩ := List.cons.inj hall
      obtain ⟨q, hleads, hplace⟩ := ih hrest
      exact ⟨q, .into folder (hshorter lookedUp) there noLink hleads, hplace⟩

/-- A last name that is no link is found in the folder that the names before it lead to. -/
theorem exists_folder {name : String} (hself : name ≠ "" ∧ name ≠ ".") (hup : name ≠ "..")
    (hlinks : ∀ q target, disk.entry? (q ++ [name]) ≠ some (.link target))
    (h : disk.Leads .thing links place (names ++ [name]) l) :
    ∃ q, disk.Leads .thing links place names (.found q .folder) ∧ l.place = q ++ [name] := by
  obtain ⟨q, hleads, hplace | ⟨target, hlink⟩⟩ := h.exists_folder_of_last hself hup
  · exact ⟨q, hleads, hplace⟩
  · exact absurd hlink (hlinks q target)

end Leads

/-! ## Growing disks -/

/-- A disk grows: folders stay folders, files stay files, whatever is in them, and there are the
same links as before. -/
structure Grown (disk disk' : Disk) : Prop where
  folder : ∀ {q}, disk.entry? q = some .folder → disk'.entry? q = some .folder
  file : ∀ {q octets}, disk.entry? q = some (.file octets) →
    ∃ octets', disk'.entry? q = some (.file octets')
  link : ∀ {q target}, disk'.entry? q = some (.link target) ↔ disk.entry? q = some (.link target)

namespace Grown

theorem refl (disk : Disk) : Grown disk disk := ⟨id, fun h => ⟨_, h⟩, .rfl⟩

theorem trans {disk'' : Disk} (h : Grown disk disk') (h' : Grown disk' disk'') :
    Grown disk disk'' where
  folder hq := h'.folder (h.folder hq)
  file hq := by
    obtain ⟨_, hq'⟩ := h.file hq
    exact h'.file hq'
  link := h'.link.trans h.link

/-- What is there stays in some way, and is no link if it was none. -/
theorem exists_entry {q : Place} {entry : Entry} (h : Grown disk disk')
    (hq : disk.entry? q = some entry) (hlink : ∀ target, entry ≠ .link target) :
    ∃ entry', disk'.entry? q = some entry' ∧ ∀ target, entry' ≠ .link target := by
  cases entry with
  | link target => exact absurd rfl (hlink target)
  | folder => exact ⟨.folder, h.folder hq, nofun⟩
  | file octets =>
    obtain ⟨octets', hq'⟩ := h.file hq
    exact ⟨.file octets', hq', nofun⟩

/-- Something that is no link is put where nothing is. -/
theorem put_vacant {entry : Entry} (hplace : disk.entry? place = none)
    (hlink : ∀ target, entry ≠ .link target) : Grown disk (disk.put place entry) := by
  have hroot := ne_nil_of_vacant hplace
  -- What was there before is somewhere else.
  have hkept : ∀ {q old}, disk.entry? q = some old →
      Disk.entry? (disk.put place entry) q = some old := by
    intro q old hq
    rw [entry?_put hroot, if_neg, hq]
    rintro rfl
    simp [hq] at hplace
  refine ⟨hkept, fun hq => ⟨_, hkept hq⟩, fun {q target} => ⟨fun h => ?_, hkept⟩⟩
  rw [entry?_put hroot] at h
  split at h
  · exact absurd (Option.some.inj h) (hlink target)
  · exact h

/-- The contents of a file are exchanged. -/
theorem put_file {octets octets' : List UInt8} (hplace : disk.entry? place = some (.file octets)) :
    Grown disk (disk.put place (.file octets')) := by
  have hroot := ne_nil_of_file hplace
  refine ⟨?_, ?_, ?_⟩
  · intro q hq
    rw [entry?_put hroot, if_neg, hq]
    rintro rfl
    simp [hq] at hplace
  · intro q old hq
    rw [entry?_put hroot]
    split
    · exact ⟨octets', rfl⟩
    · exact ⟨old, hq⟩
  · intro q target
    rw [entry?_put hroot]
    split
    · next heq => simp [heq, hplace]
    · rfl

end Grown

/-- What has been found stays where it is while a disk grows. -/
theorem Leads.grown {p : Place} {entry : Entry} (h : Grown disk disk')
    (hleads : disk.Leads goal links place names (.found p entry)) :
    ∃ entry', disk'.Leads goal links place names (.found p entry') := by
  generalize hl : Location.found p entry = l at hleads
  -- Each folder and each link on the way is still there.
  induction hleads with
  | found there =>
    cases hl
    cases entry with
    | link target => exact ⟨_, .found (h.link.mpr there)⟩
    | folder => exact ⟨_, .found (h.folder there)⟩
    | file octets =>
      obtain ⟨octets', there'⟩ := h.file there
      exact ⟨_, .found there'⟩
  | vacant => cases hl
  | self folder isSelf _ ih =>
    obtain ⟨entry', h'⟩ := ih hl
    exact ⟨entry', .self (h.folder folder) isSelf h'⟩
  | up folder _ ih =>
    obtain ⟨entry', h'⟩ := ih hl
    exact ⟨entry', .up (h.folder folder) h'⟩
  | missing => cases hl
  | link folder lookedUp there wanted =>
    cases hl
    exact ⟨_, .link (h.folder folder) lookedUp (h.link.mpr there) wanted⟩
  | through folder lookedUp there notWanted _ ih =>
    obtain ⟨entry', h'⟩ := ih hl
    exact ⟨entry', .through (h.folder folder) lookedUp (h.link.mpr there) notWanted h'⟩
  | into folder lookedUp there noLink _ ih =>
    obtain ⟨entry', h'⟩ := ih hl
    obtain ⟨kept, there', noLink'⟩ := h.exists_entry there noLink
    exact ⟨entry', .into (h.folder folder) lookedUp there' noLink' h'⟩

/-- What is put at the end of a path is found there. -/
theorem Leads.put_vacant {p : Place} {entry : Entry} (hlink : ∀ target, entry ≠ .link target)
    (hleads : disk.Leads goal links place names (.vacant p)) :
    (disk.put p entry).Leads goal links place names (.found p entry) := by
  have hp : disk.entry? p = none := hleads.entry?_eq
  have hput : Disk.entry? (disk.put p entry) p = some entry := by
    rw [entry?_put (ne_nil_of_vacant hp), if_pos rfl]
  have h := Grown.put_vacant hp hlink
  generalize hl : Location.vacant p = l at hleads
  -- The way is the same; only its end, where nothing was, is something now.
  induction hleads with
  | found => cases hl
  | vacant =>
    cases hl
    exact .found hput
  | self folder isSelf _ ih => exact .self (h.folder folder) isSelf (ih hl)
  | up folder _ ih => exact .up (h.folder folder) (ih hl)
  | missing folder lookedUp _ =>
    cases hl
    exact .into (h.folder folder) lookedUp hput hlink (.found hput)
  | link => cases hl
  | through folder lookedUp there notWanted _ ih =>
    exact .through (h.folder folder) lookedUp (h.link.mpr there) notWanted (ih hl)
  | into folder lookedUp there noLink _ ih =>
    obtain ⟨kept, there', noLink'⟩ := h.exists_entry there noLink
    exact .into (h.folder folder) lookedUp there' noLink' (ih hl)

end GuestCode.Disk
