import GuestCode.Proofs.Capability.Documents
import GuestCode.Proofs.Data.Sorting
import GuestCode.Proofs.Disk.Tree
import Mathlib

/-!
# Listed cases

Each stored document is listed and found with one summary, whatever has been saved in it. Only the
order of the list may be the ruin of it: summaries are sorted by the total scores as they were
given, and where two of them cannot be compared all are lost.

## Main statements

* `BestCases.Saves.holds_iff`: the documents that are stored are those of the last saved cases.
* `BestCases.run_listAll`, `BestCases.run_search`: listing comes down to sorting.
* `BestCases.list_saved`: what is listed after cases have been saved.
-/

namespace GuestCode

/-! ## Lists -/

/-- What has names in a list can be taken in the order of this list, if there is something for no
other name. -/
theorem exists_named {α β γ : Type} [DecidableEq α] {f : α → Option β} {name : γ → α}
    {xs : List α} {zs : List γ} (hxs : xs.Nodup) (hzs : (zs.map name).Nodup)
    (hall : ∀ z ∈ zs, name z ∈ xs) (hnone : ∀ x ∈ xs, (f x).isSome → x ∈ zs.map name) :
    ∃ named : List γ, named.Perm zs ∧ (named.map name).Sublist xs ∧
      xs.filterMap f = named.filterMap fun z => f (name z) := by
  have hperm : (xs.filter (· ∈ zs.map name)).Perm (zs.map name) := by
    refine (List.perm_ext_iff_of_nodup (hxs.filter _) hzs).mpr fun x => ?_
    rw [List.mem_filter, decide_eq_true_iff, and_iff_right_iff_imp]
    rintro hx
    obtain ⟨z, hz, rfl⟩ := List.mem_map.mp hx
    exact hall z hz
  have hnames : List.Forall₂ (fun x z => x = name z) (zs.map name) zs :=
    List.forall₂_map_left_iff.mpr (List.forall₂_same.mpr fun _ _ => rfl)
  obtain ⟨named, hnamed, hzs⟩ := List.perm_comp_forall₂ hperm hnames
  have heq : xs.filter (· ∈ zs.map name) = named.map name :=
    List.forall₂_eq_eq_eq ▸ List.forall₂_map_right_iff.mpr hnamed
  refine ⟨named, hzs, heq ▸ List.filter_sublist, ?_⟩
  have hmap : named.filterMap (fun z => f (name z)) = (named.map name).filterMap f :=
    List.filterMap_map.symm
  rw [hmap, ← heq, List.filterMap_filter]
  refine List.filterMap_congr fun x hx => ?_
  split
  · rfl
  · next hout =>
    exact Option.not_isSome_iff_eq_none.mp fun hsome => hout (by simpa using hnone x hx hsome)

theorem mapM_of_forall₂ {α β ε : Type} {f : α → Except ε β} {xs : List α} {ys : List β}
    (h : List.Forall₂ (fun x y => f x = .ok y) xs ys) : xs.mapM f = .ok ys := by
  induction h with
  | nil => rfl
  | cons hfirst _ ih =>
    rw [List.mapM_cons, hfirst, ih]
    rfl

namespace BestCases

/-! ## The last saved cases -/

/-- The cases under whose ids no later case has been saved. -/
def lastSaved : List Saved → List Saved
  | [] => []
  | s :: later => if later.any (·.id == s.id) then lastSaved later else s :: lastSaved later

theorem any_id_iff {later : List Saved} {id : String} :
    later.any (·.id == id) = true ↔ ∃ t ∈ later, t.id = id := by
  simp

theorem exists_of_mem_lastSaved {saved : List Saved} {s : Saved} (h : s ∈ lastSaved saved) :
    ∃ before after, saved = before ++ s :: after ∧ ∀ t ∈ after, t.id ≠ s.id := by
  induction saved with
  | nil => cases h
  | cons first later ih =>
    have hlater : s ∈ lastSaved later → ∃ before after,
        first :: later = before ++ s :: after ∧ ∀ t ∈ after, t.id ≠ s.id := by
      intro hmem
      obtain ⟨before, after, rfl, hafter⟩ := ih hmem
      exact ⟨first :: before, after, rfl, hafter⟩
    rw [lastSaved] at h
    split at h
    · exact hlater h
    · next hnone =>
      rcases List.mem_cons.mp h with rfl | h
      · refine ⟨[], later, rfl, fun t ht heq => hnone (any_id_iff.mpr ⟨t, ht, heq⟩)⟩
      · exact hlater h

theorem mem_of_mem_lastSaved {saved : List Saved} {s : Saved} (h : s ∈ lastSaved saved) :
    s ∈ saved := by
  obtain ⟨before, after, rfl, -⟩ := exists_of_mem_lastSaved h
  simp

/-- Some case is the last one under an id. -/
theorem exists_mem_lastSaved {saved : List Saved} {s : Saved} (h : s ∈ saved) :
    ∃ t ∈ lastSaved saved, t.id = s.id := by
  induction saved generalizing s with
  | nil => cases h
  | cons first later ih =>
    rw [lastSaved]
    split
    · next hlater =>
      rcases List.mem_cons.mp h with rfl | h
      · obtain ⟨t, ht, heq⟩ := any_id_iff.mp hlater
        obtain ⟨u, hu, hid⟩ := ih ht
        exact ⟨u, hu, hid.trans heq⟩
      · exact ih h
    · rcases List.mem_cons.mp h with rfl | h
      · exact ⟨s, List.mem_cons_self, rfl⟩
      · obtain ⟨t, ht, hid⟩ := ih h
        exact ⟨t, List.mem_cons_of_mem _ ht, hid⟩

/-- The last saved cases have different ids. -/
theorem nodup_id_lastSaved (saved : List Saved) : ((lastSaved saved).map Saved.id).Nodup := by
  induction saved with
  | nil => exact List.nodup_nil
  | cons first later ih =>
    rw [lastSaved]
    split
    · exact ih
    · next hnone =>
      refine List.nodup_cons.mpr ⟨fun hmem => hnone ?_, ih⟩
      obtain ⟨t, ht, heq⟩ := List.mem_map.mp hmem
      exact any_id_iff.mpr ⟨t, mem_of_mem_lastSaved ht, heq⟩

/-! ## The documents that are stored -/

/-- At the place that a folder leads to at the end, there was no document at the start. -/
def StartsEmpty (folder : Path) (m n : Machine) : Prop :=
  ∀ place name, n.disk.locate n.workdir .thing folder = .ok (.found place .folder) →
    isDocumentName name = true → m.disk.entry? (place ++ [name]) = none

namespace Saves

variable {folder : Path} {m n : Machine} {saved : List Saved}

theorem grown (h : Saves folder m saved n) : m.disk.Grown n.disk := by
  induction h with
  | none m => exact .refl m.disk
  | save made saved _ ih => exact (grown_of_save made saved).trans ih

theorem workdir_eq (h : Saves folder m saved n) : n.workdir = m.workdir := by
  induction h with
  | none m => rfl
  | save made saved _ ih => exact ih.trans (exists_holds_of_save made saved).2.1

theorem placedOnce (h : Saves folder m saved n) (honce : m.disk.PlacedOnce) :
    n.disk.PlacedOnce := by
  induction h with
  | none m => exact honce
  | save made saved _ ih =>
    obtain ⟨-, -, disk, hadded, hfile⟩ := exists_holds_of_save made saved
    exact ih ((hadded.placedOnce honce).write hfile)

/-- A file that is there at the end was there at the start, or a case has been saved to it. -/
theorem exists_of_file (h : Saves folder m saved n) {place : Place} {octets : List UInt8}
    (hfile : n.disk.entry? place = some (.file octets)) :
    m.disk.entry? place = some (.file octets) ∨
      ∃ s ∈ saved, n.disk.Holds n.workdir (folder.child (fileName s.id)) place octets := by
  induction h with
  | none m => exact .inl hfile
  | @save m k n _ _ s later made saved others ih =>
    obtain ⟨-, hworkdir, disk, hadded, hwrite⟩ := exists_holds_of_save made saved
    obtain ⟨written, hholds, -, hkept⟩ := Disk.exists_of_write hwrite
    rcases ih hfile with hthere | ⟨t, ht, hlater⟩
    · -- After this save it was there; it is the file of the case, or was there before.
      by_cases hplace : place = written
      · subst hplace
        have hend := hholds.grown others.grown hfile
        rw [← hworkdir, ← others.workdir_eq] at hend
        exact .inr ⟨s, List.mem_cons_self, hend⟩
      · rw [hkept place hplace] at hthere
        exact .inl (hadded.file_iff.mp hthere)
    · exact .inr ⟨t, List.mem_cons_of_mem _ ht, hlater⟩

/-- The file of a last saved case has the text of this case at the end. -/
theorem exists_holds (h : Saves folder m saved n) (hlinks : NoDocumentLinks m.disk) {s : Saved}
    (hs : s ∈ lastSaved saved) :
    ∃ place, n.disk.Holds n.workdir (folder.child (fileName s.id)) place
      (Utf8.encode s.text.toList) := by
  obtain ⟨before, after, rfl, hafter⟩ := exists_of_mem_lastSaved hs
  obtain ⟨k, hgrown, hsaves⟩ := h.exists_of_append
  cases hsaves with
  | @save _ k' _ _ _ _ _ made saved others =>
    obtain ⟨-, hworkdir, disk, -, hfile⟩ := exists_holds_of_save made saved
    obtain ⟨place, hholds, -, -⟩ := Disk.exists_of_write hfile
    rw [← hworkdir] at hholds
    have hlinks' := hlinks.grown (hgrown.trans (grown_of_save made saved))
    obtain ⟨t, latest, hsuffix, ht, -, hlast⟩ := others.exists_last hlinks' hholds
    -- No case after this one has its id.
    rcases List.suffix_cons_iff.mp hsuffix with heq | hsuffix
    · obtain ⟨rfl, -⟩ := List.cons.inj heq
      exact ⟨place, hlast⟩
    · exact absurd ht (hafter t (hsuffix.subset List.mem_cons_self))

/-- The documents that are stored are those of the last saved cases. -/
theorem holds_iff (h : Saves folder m saved n) (hlinks : NoDocumentLinks m.disk)
    (hempty : StartsEmpty folder m n) {name : String} (hname : isDocumentName name = true) :
    (∃ place octets, n.disk.Holds n.workdir (folder.child name) place octets) ↔
      ∃ s ∈ lastSaved saved, name = fileName s.id := by
  have hlinks' := hlinks.grown h.grown
  constructor
  · rintro ⟨place, octets, hholds⟩
    -- The folder had no such file at the start, so the file is that of some case.
    obtain ⟨q, hfolder, -, rfl⟩ :=
      hholds.exists_folder (hlinks'.isFileName_of_isDocumentName hname)
    rcases h.exists_of_file hholds.entry?_eq with hthere | ⟨s, hs, hsaved⟩
    · cases hthere.symm.trans (hempty q name hfolder hname)
    · obtain ⟨q', hplace⟩ := hsaved.exists_place_eq (hlinks'.isFileName s.id)
      obtain ⟨t, ht, hid⟩ := exists_mem_lastSaved hs
      obtain ⟨-, hlast⟩ := List.append_inj' hplace (by simp)
      refine ⟨t, ht, ?_⟩
      rw [hid]
      exact List.singleton_inj.mp hlast
  · rintro ⟨s, hs, rfl⟩
    obtain ⟨place, hholds⟩ := h.exists_holds hlinks hs
    exact ⟨place, _, hholds⟩

theorem readDocument_fileName (h : Saves folder m saved n) (hlinks : NoDocumentLinks m.disk)
    {s : Saved} (hs : s ∈ lastSaved saved) :
    readDocument n.disk n.workdir (folder.child (fileName s.id)) = s.loaded := by
  obtain ⟨place, hholds⟩ := h.exists_holds hlinks hs
  exact readDocument_eq hholds
    (Json.not_mem_of_write (h.write_eq s (mem_of_mem_lastSaved hs)))

/-- The folder of a saved case is there at the end. -/
theorem exists_locate (h : Saves folder m saved n) (hlinks : NoDocumentLinks m.disk) {s : Saved}
    (hs : s ∈ lastSaved saved) :
    n.disk.isFolder n.workdir folder = .ok true ∧
      ∃ q, n.disk.locate n.workdir .thing folder = .ok (.found q .folder) ∧
        ∃ entry, n.disk.entry? (q ++ [fileName s.id]) = some entry := by
  obtain ⟨place, hholds⟩ := h.exists_holds hlinks hs
  obtain ⟨q, hfolder, hnul, rfl⟩ := hholds.exists_folder ((hlinks.grown h.grown).isFileName s.id)
  exact ⟨Disk.isFolder_of_locate hnul hfolder, q, hfolder, _, hholds.entry?_eq⟩

/-- What is read from the folder at the end is what is read from the texts of the last saved cases,
in the order of the names of their files. -/
theorem exists_run_documents (h : Saves folder m saved n) (honce : m.disk.PlacedOnce)
    (hlinks : NoDocumentLinks m.disk) (hempty : StartsEmpty folder m n)
    (hfolder : saved = [] → ∃ there, m.disk.isFolder m.workdir folder = .ok there) :
    ∃ named : List Saved, named.Perm (lastSaved saved) ∧
      named.Pairwise (fun s t => fileName s.id < fileName t.id) ∧
      (documents folder).run n = (.ok (named.filterMap fun s => s.loaded.toOption), n) := by
  have hlook : ∃ there, n.disk.isFolder n.workdir folder = .ok there := by
    cases saved with
    | nil =>
      cases h with
      | none => exact hfolder rfl
    | cons s later =>
      have hmem : s ∈ s :: later := List.mem_cons_self
      obtain ⟨t, ht, -⟩ := exists_mem_lastSaved hmem
      exact ⟨true, (h.exists_locate hlinks ht).1⟩
  obtain ⟨there, hthere⟩ := hlook
  -- Without a folder nothing is read, and nothing has been saved.
  rw [documents, Action.run_onDisk, hthere]
  dsimp only [bind, Except.bind]
  cases there with
  | false =>
    have hnone : lastSaved saved = [] := List.eq_nil_iff_forall_not_mem.mpr fun s hs =>
      nomatch hthere.symm.trans (h.exists_locate hlinks hs).1
    exact ⟨[], by rw [hnone], .nil, rfl⟩
  | true =>
    obtain ⟨q, hlocate⟩ := Disk.exists_locate_of_isFolder hthere
    have hnames : n.disk.names n.workdir folder = n.disk.sortedNamesIn q := by
      rw [Disk.names, hlocate]
      rfl
    have hsorted := Disk.pairwise_sortedNamesIn (h.placedOnce honce) q
    rw [← hnames] at hsorted
    have hdistinct : ((lastSaved saved).map fun s => fileName s.id).Nodup := by
      have hids := (nodup_id_lastSaved saved).map fun id id' => fileName_inj
      rwa [List.map_map] at hids
    -- A name that a document is read under is the name of a file, and that of a last saved case.
    have hread : ∀ name ∈ (n.disk.names n.workdir folder).filter isDocumentName,
        (readDocument n.disk n.workdir (folder.child name)).toOption.isSome →
        name ∈ (lastSaved saved).map fun s => fileName s.id := by
      intro name hmem hsome
      obtain ⟨document, hdocument⟩ := Option.isSome_iff_exists.mp hsome
      obtain ⟨text, htext, -⟩ := Outcome.exists_of_bind_eq_ok (Outcome.eq_ok_of_toOption hdocument)
      obtain ⟨octets, hoctets, -⟩ := Outcome.exists_of_bind_eq_ok htext
      obtain ⟨place, hholds⟩ := Disk.exists_holds_of_read hoctets
      obtain ⟨s, hs, rfl⟩ :=
        (h.holds_iff hlinks hempty (List.mem_filter.mp hmem).2).mp ⟨place, octets, hholds⟩
      exact List.mem_map_of_mem hs
    have hthere : ∀ s ∈ lastSaved saved,
        fileName s.id ∈ (n.disk.names n.workdir folder).filter isDocumentName := by
      intro s hs
      obtain ⟨-, q', hlocate', hentry⟩ := h.exists_locate hlinks hs
      cases hlocate.symm.trans hlocate'
      exact List.mem_filter.mpr
        ⟨(Disk.mem_names hlocate).mpr hentry, isDocumentName_fileName s.id⟩
    obtain ⟨named, hperm, hsublist, hcases⟩ :=
      exists_named ((Disk.nodup_names (h.placedOnce honce) _ _).filter _) hdistinct hthere hread
    refine ⟨named, hperm, ?_, ?_⟩
    · exact List.pairwise_map.mp ((hsorted.filter _).sublist hsublist)
    · rw [if_pos rfl, hcases]
      refine congrArg (fun cases => (Except.ok cases, n)) (List.filterMap_congr fun s hs => ?_)
      exact congrArg Except.toOption (h.readDocument_fileName hlinks (hperm.mem_iff.mp hs))

end Saves

/-! ## Summaries of what is stored -/

/-- A summary with a time is given of a document. -/
def Summarizes (told : Summary) (document : Value) : Prop :=
  (∃ time, told.field "updatedAt" = .text time) ∧ summary document = .ok told

/-- The summary that is given of a saved case tells its id. -/
def Tells (s : Saved) (told : Summary) : Prop :=
  (∃ document, s.loaded = .ok document ∧ Summarizes told document) ∧
    told.field "id" = .text s.id

/-- What listing tells its caller. -/
def listReply (sorted : List Summary) : Value :=
  Value.record [("bestcases", .list (sorted.map Summary.toValue)), ("total", .int sorted.length)]

/-- What a search tells its caller. -/
def searchReply (found : List Summary) : Value :=
  Value.record
    [("ids", .list (found.map fun s => s.field "id")),
      ("summary", .list (found.map Summary.toValue)), ("total", .int found.length)]

/-- Listing comes down to sorting by score, since the times of cases can be compared. -/
theorem run_listAll {folder : Path} {m : Machine} {cases : List Value} {summaries : List Summary}
    (hcases : (documents folder).run m = (.ok cases, m))
    (hsummaries : List.Forall₂ Summarizes summaries cases) :
    ∃ byTime, Value.sortDescending timeKey summaries = .ok byTime ∧ byTime.Perm summaries ∧
      (listAll folder).run m = ((Value.sortDescending scoreKey byTime).map listReply, m) := by
  obtain ⟨htimes, hsummaries⟩ := (List.forall₂_and_left _ _).mp hsummaries
  have hcompared : ∀ a ∈ summaries, ∀ b ∈ summaries,
      ∃ before, Value.less (timeKey a) (timeKey b) = .ok before := by
    -- Every time is a text, and texts can be compared.
    have hkeys : ∀ s ∈ summaries, ∃ time, timeKey s = .text time := by
      intro s hs
      obtain ⟨time, htime⟩ := htimes s hs
      unfold timeKey orElse
      split
      · exact ⟨time, htime⟩
      · exact ⟨"", rfl⟩
    intro a ha b hb
    obtain ⟨time, htime⟩ := hkeys a ha
    obtain ⟨time', htime'⟩ := hkeys b hb
    rw [htime, htime']
    exact ⟨_, Value.less_text time time'⟩
  obtain ⟨byTime, hsorted, hperm, -⟩ :=
    (Value.sorts_sortDescending timeKey summaries).exists_ok hcompared
  refine ⟨byTime, hsorted, hperm, ?_⟩
  rw [listAll, Action.run_bind_ok hcases, mapM_of_forall₂ hsummaries.flip,
    Action.run_bind_ok (Action.run_ofExcept _ m), hsorted,
    Action.run_bind_ok (Action.run_ofExcept _ m), Action.run_bind, Action.run_ofExcept]
  cases Value.sortDescending scoreKey byTime with
  | error failure => rfl
  | ok sorted => rfl

/-! ## Searches for anything -/

/-- The query that asks for nothing. -/
def anything : Query := ⟨[], [], .null, .null, .null⟩

theorem ofEntries_nil : Query.ofEntries [] = .ok anything := rfl

/-- Whatever has a summary is found by the query that asks for nothing. -/
theorem match?_anything {document : Value} {told : Summary} (h : summary document = .ok told) :
    match? anything document = .ok (some told) := by
  obtain ⟨entries, hentries, -⟩ := Outcome.exists_of_bind_eq_ok h
  unfold match?
  rw [h, hentries]
  rfl

/-- A search comes down to sorting what is found by score. -/
theorem run_search_entries {folder : Path} {parameter : Value} {entries : List (Value × Value)}
    {q : Query} {m : Machine} {cases : List Value} {found : List (Option Summary)}
    (hentries : parameter.optionalEntries = .ok entries) (hquery : Query.ofEntries entries = .ok q)
    (hcases : (documents folder).run m = (.ok cases, m))
    (hfound : cases.mapM (match? q) = .ok found) :
    (search folder parameter).run m =
      ((Value.sortDescending scoreKey (found.filterMap id)).map searchReply, m) := by
  rw [search, hentries, Action.run_bind_ok (Action.run_ofExcept _ m), hquery,
    Action.run_bind_ok (Action.run_ofExcept _ m), Action.run_bind_ok hcases, hfound,
    Action.run_bind_ok (Action.run_ofExcept _ m), Action.run_bind, Action.run_ofExcept]
  cases Value.sortDescending scoreKey (found.filterMap id) with
  | error failure => rfl
  | ok sorted => rfl

theorem run_search {folder : Path} {m : Machine} {cases : List Value} {summaries : List Summary}
    (hcases : (documents folder).run m = (.ok cases, m))
    (hsummaries : List.Forall₂ Summarizes summaries cases) :
    (search folder (.mapping [])).run m =
      ((Value.sortDescending scoreKey summaries).map searchReply, m) := by
  have hfound : cases.mapM (match? anything) = .ok (summaries.map some) :=
    mapM_of_forall₂ (List.forall₂_map_right_iff.mpr
      (hsummaries.flip.imp fun _ _ h => match?_anything h.2))
  have hall : (summaries.map some).filterMap id = summaries := by simp
  rw [run_search_entries rfl ofEntries_nil hcases hfound, hall]

/-! ## What is listed -/

/-- What comes of sorting summaries by their scores. -/
structure IsListing (summaries : List Summary) (outcome : Except Failure (List Summary)) :
    Prop where
  /-- No summary is missing, and none is there twice. -/
  perm : ∀ sorted, outcome = .ok sorted → sorted.Perm summaries
  /-- The scores of more than one case are of one kind. -/
  alike : ∀ sorted, outcome = .ok sorted → 2 ≤ summaries.length →
    ∃ kind, ∀ s ∈ summaries, (scoreKey s).orderKind = some kind
  /-- Nothing fails but a comparison of two scores. -/
  failed : ∀ failure, outcome = .error failure → 2 ≤ summaries.length ∧
    ∃ a ∈ summaries, ∃ b ∈ summaries, Value.less (scoreKey a) (scoreKey b) = .error failure

theorem isListing_sortDescending {summaries listed : List Summary} (hperm : listed.Perm summaries) :
    IsListing summaries (Value.sortDescending scoreKey listed) := by
  have hsorts := (Value.sorts_sortDescending scoreKey listed).perm hperm
  refine ⟨fun sorted hsorted => ?_, fun sorted hsorted hlong => ?_, fun failure hfailure => ?_⟩
  · rw [hsorted] at hsorts
    exact hsorts.1.trans hperm
  · rw [hsorted] at hsorts
    obtain ⟨kind, hkind⟩ := hsorts.2 (hperm.length_eq ▸ hlong)
    exact ⟨kind, fun s hs => hkind s (hperm.mem_iff.mpr hs)⟩
  · refine ⟨?_, ?_⟩
    · by_contra hshort
      rw [Value.sortDescending_of_short _ (hperm.length_eq ▸ Nat.not_le.mp hshort)] at hfailure
      cases hfailure
    · rw [hfailure] at hsorts
      exact hsorts

/-- Unless scores are lists, there is a list exactly if the scores of more than one case are all
numbers or all texts. -/
theorem IsListing.exists_ok_iff {summaries : List Summary}
    {outcome : Except Failure (List Summary)} (h : IsListing summaries outcome)
    (hflat : ∀ s ∈ summaries, ∀ kind ∈ (scoreKey s).orderKind, kind ∉ [.list, .tuple]) :
    (∃ sorted, outcome = .ok sorted) ↔
      (2 ≤ summaries.length → ∃ kind, ∀ s ∈ summaries, (scoreKey s).orderKind = some kind) := by
  constructor
  · rintro ⟨sorted, hsorted⟩
    exact h.alike sorted hsorted
  · intro hkinds
    cases outcome with
    | ok sorted => exact ⟨sorted, rfl⟩
    | error failure =>
      obtain ⟨hlong, a, ha, b, hb, hfailure⟩ := h.failed failure rfl
      obtain ⟨kind, hkind⟩ := hkinds hlong
      obtain ⟨before, hbefore⟩ := Value.exists_less_of_orderKind (hkind a ha) (hkind b hb)
        (hflat a ha kind (hkind a ha))
      cases hfailure.symm.trans hbefore

/-! ## Cases of JSON -/

theorem Saved.IsOfJson.exists_tells {s : Saved} (h : s.IsOfJson) : ∃ told, Tells s told := by
  obtain ⟨entries, clock, hmade, hentries⟩ := h
  obtain ⟨told, htold, hid, ⟨time, -, htime⟩, -⟩ := hmade.exists_summary hentries
  obtain ⟨document, hloaded, hsummary⟩ := Outcome.exists_of_bind_eq_ok htold
  exact ⟨told, ⟨document, hloaded, ⟨time, htime⟩, hsummary⟩, hid⟩

/-- The score of a summary is the one that was given. -/
theorem Tells.field_totalScore {s : Saved} {told : Summary} (h : Tells s told)
    {entries : List (Value × Value)} {clock : Int} (hmade : s.IsMadeOf entries clock)
    (hentries : Json.IsReadable (.mapping entries)) :
    told.field "totalScore" = Json.reread (Value.field entries "totalScore") := by
  obtain ⟨told', htold', -, -, hscore⟩ := hmade.exists_summary hentries
  obtain ⟨⟨document, hloaded, -, htold⟩, -⟩ := h
  rw [hloaded] at htold'
  obtain rfl : told = told' := Except.ok.inj (htold.symm.trans htold')
  exact hscore

/-- Each case has a summary, and these are the summaries of the documents. -/
theorem exists_summaries {saved : List Saved} (hjson : ∀ s ∈ saved, s.IsOfJson) :
    ∃ summaries, List.Forall₂ Tells saved summaries ∧
      List.Forall₂ Summarizes summaries (saved.filterMap fun s => s.loaded.toOption) := by
  induction saved with
  | nil => exact ⟨[], .nil, .nil⟩
  | cons s later ih =>
    obtain ⟨hs, hlater⟩ := List.forall_mem_cons.mp hjson
    obtain ⟨told, htold⟩ := hs.exists_tells
    obtain ⟨others, hothers, hdocuments⟩ := ih hlater
    refine ⟨told :: others, .cons htold hothers, ?_⟩
    obtain ⟨⟨document, hloaded, hsummary⟩, -⟩ := htold
    rw [List.filterMap_cons, hloaded]
    exact .cons hsummary hdocuments

/-- What is listed and found after cases have been saved. -/
theorem Saves.exists_listing {folder : Path} {m n : Machine} {saved : List Saved}
    (hsaves : Saves folder m saved n) (hjson : ∀ s ∈ saved, s.IsOfJson)
    (honce : m.disk.PlacedOnce) (hlinks : NoDocumentLinks m.disk)
    (hempty : StartsEmpty folder m n)
    (hfolder : saved = [] → ∃ there, m.disk.isFolder m.workdir folder = .ok there) :
    ∃ summaries, List.Forall₂ Tells (lastSaved saved) summaries ∧
      ∃ listed found, (listAll folder).run n = (listed.map listReply, n) ∧
        (search folder (.mapping [])).run n = (found.map searchReply, n) ∧
        IsListing summaries listed ∧ IsListing summaries found := by
  obtain ⟨named, hperm, -, hcases⟩ := hsaves.exists_run_documents honce hlinks hempty hfolder
  obtain ⟨summaries, htells, hdocuments⟩ :=
    exists_summaries fun s hs => hjson s (mem_of_mem_lastSaved hs)
  -- The documents are read in the order of their names, and so are their summaries.
  obtain ⟨listed, hsummaries, hlisted⟩ :=
    List.perm_comp_forall₂ (hperm.filterMap _) hdocuments.flip
  obtain ⟨byTime, -, hbyTime, hrun⟩ := run_listAll hcases hsummaries.flip
  exact ⟨summaries, htells, _, _, hrun, run_search hcases hsummaries.flip,
    isListing_sortDescending (hbyTime.trans hlisted), isListing_sortDescending hlisted⟩

/-- Whatever the cases are that have been saved with JSON parameters, each stored document is that
of a last saved case and has one summary, and the summaries are listed and found with none missing
and none twice, unless a comparison of two scores fails. So all is lost if the scores of two cases
are of different kinds. -/
theorem list_saved {folder : Path} {m n : Machine} {saved : List Saved}
    (hsaves : Saves folder m saved n) (hjson : ∀ s ∈ saved, s.IsOfJson)
    (honce : m.disk.PlacedOnce) (hlinks : NoDocumentLinks m.disk)
    (hempty : StartsEmpty folder m n)
    (hfolder : saved = [] → ∃ there, m.disk.isFolder m.workdir folder = .ok there) :
    (∀ name, isDocumentName name = true →
      ((∃ place octets, n.disk.Holds n.workdir (folder.child name) place octets) ↔
        ∃ s ∈ lastSaved saved, name = fileName s.id)) ∧
    ((lastSaved saved).map Saved.id).Nodup ∧
    ∃ summaries, List.Forall₂ Tells (lastSaved saved) summaries ∧
      ∃ listed found, (listAll folder).run n = (listed.map listReply, n) ∧
        (search folder (.mapping [])).run n = (found.map searchReply, n) ∧
        IsListing summaries listed ∧ IsListing summaries found :=
  ⟨fun _ hname => hsaves.holds_iff hlinks hempty hname, nodup_id_lastSaved saved,
    hsaves.exists_listing hjson honce hlinks hempty hfolder⟩

theorem IsListing.eq_singleton {told : Summary} {outcome : Except Failure (List Summary)}
    (h : IsListing [told] outcome) : outcome = .ok [told] := by
  cases outcome with
  | ok sorted => rw [List.perm_singleton.mp (h.perm sorted rfl)]
  | error failure => exact absurd (h.failed failure rfl).1 (by simp)

theorem isOfJson_pageCase {project : String} (hid : (pageCase project).id = "my-app-page-0") :
    (pageCase project).IsOfJson := by
  refine ⟨pageOf project, 0, isMadeOf_pageCase hid, ?_⟩
  have hfields : ∀ f ∈ [("projectName", Value.text project), ("category", .text "page")],
      Json.IsReadable f.2 := by simp [Json.IsReadable.text]
  exact .record hfields

/-- The empty disk has nothing that a store could be mistaken in. -/
theorem startsEmpty_bare (folder : Path) (n : Machine) :
    StartsEmpty folder (Machine.bare [] []) n := by
  intro place name _ _
  simp [Machine.bare, Disk.empty, Disk.entry?]

theorem noDocumentLinks_bare : NoDocumentLinks (Machine.bare [] []).disk := by
  intro place name target h
  simp [Machine.bare, Disk.empty, Disk.entry?] at h

/-- Of two cases with one id there is one summary. -/
theorem list_saved_pageCases : ∃ told, told.field "id" = .text "my-app-page-0" ∧
    (listAll store).run twiceSaved = (.ok (listReply [told]), twiceSaved) ∧
    (search store (.mapping [])).run twiceSaved = (.ok (searchReply [told]), twiceSaved) := by
  have hspaced := id_pageCase (.inl rfl : "my app" = "my app" ∨ "my app" = "my-app")
  have hhyphened := id_pageCase (.inr rfl : "my-app" = "my app" ∨ "my-app" = "my-app")
  have hjson : ∀ s ∈ [pageCase "my app", pageCase "my-app"], s.IsOfJson := by
    simp [isOfJson_pageCase hspaced, isOfJson_pageCase hhyphened]
  obtain ⟨-, -, summaries, htells, listed, found, hlist, hsearch, hlisted, hfound⟩ :=
    list_saved saves_pageCases hjson List.nodup_nil noDocumentLinks_bare (startsEmpty_bare _ _)
      nofun
  have hlast : lastSaved [pageCase "my app", pageCase "my-app"] = [pageCase "my-app"] := by
    simp [lastSaved, hspaced, hhyphened]
  rw [hlast] at htells
  cases htells with
  | @cons _ told _ _ htold hothers =>
    cases hothers
    refine ⟨told, hhyphened ▸ htold.2, ?_, ?_⟩
    · rw [hlist, hlisted.eq_singleton]
      rfl
    · rw [hsearch, hfound.eq_singleton]
      rfl

/-! ## Two scores that cannot be compared -/

/-- The entries of a parameter about a project with a score. -/
def scoredOf (project : String) (score : Value) : List (Value × Value) :=
  pageOf project ++ [(.text "totalScore", score)]

/-- The document about a project with a score. -/
def scoredDocument (project : String) (score : Value) : Value :=
  Value.record
    [("id", .text (project ++ "-page-0")), ("projectName", .text project),
      ("category", .text "page"), ("description", .text ""), ("files", .list []),
      ("patterns", .mapping []),
      ("metadata", Value.record (noteFields (.text "1970-01-01T00:00:00+00:00") [])),
      ("totalScore", score)]

def scoredCase (project : String) (score : Value) : Saved :=
  ⟨.text project, .text "page", 0, scoredDocument project score,
    (Json.write .document (scoredDocument project score)).toOption.getD ""⟩

/-- A score that was given as a text, and one that was given as a number. -/
def spelledCase : Saved := scoredCase "a" (.text "90")

def countedCase : Saved := scoredCase "b" (.int 80)

theorem isMadeOf_scoredCase {project : String} {score : Value}
    (hid : (scoredCase project score).id = project ++ "-page-0")
    (hscore : score = .text "90" ∨ score = .int 80) :
    (scoredCase project score).IsMadeOf (scoredOf project score) 0 := by
  have htime : timeText 0 = .ok "1970-01-01T00:00:00+00:00" := rfl
  have hdocument : newDocument (scoredOf project score) (project ++ "-page-0")
      (.text "1970-01-01T00:00:00+00:00") = .ok (scoredDocument project score) := by
    rcases hscore with rfl | rfl <;> cbv
  have hplain : Json.IsPlain (scoredDocument project score) := by
    rcases hscore with rfl | rfl <;> simp [scoredDocument, noteFields, Json.IsPlain.mapping_iff]
  obtain ⟨text, htext⟩ := hplain.exists_write .document
  refine ⟨?_, ?_, rfl, ⟨_, htime, ?_⟩, ?_⟩
  · simp [scoredOf, pageOf, scoredCase, Value.field, Value.field?, Value.lookup?, Value.same]
  · simp [scoredOf, pageOf, scoredCase, Value.field, Value.field?, Value.lookup?, Value.same]
  · rw [hid]
    exact hdocument
  · simp [scoredCase, htext, Except.toOption]

theorem isMadeOf_spelledCase : spelledCase.IsMadeOf (scoredOf "a" (.text "90")) 0 :=
  isMadeOf_scoredCase rfl (.inl rfl)

theorem isMadeOf_countedCase : countedCase.IsMadeOf (scoredOf "b" (.int 80)) 0 :=
  isMadeOf_scoredCase rfl (.inr rfl)

/-- The machine on which both cases have been saved. -/
def bothSaved : Machine :=
  { Machine.bare [] [] with
    disk := ⟨[(["cases"], .folder),
      (["cases", "a-page-0.json"], .file (Utf8.encode spelledCase.text.toList)),
      (["cases", "b-page-0.json"], .file (Utf8.encode countedCase.text.toList))]⟩ }

theorem makeFolders_there {disk : Disk} (h : disk.entry? ["cases"] = some .folder) :
    disk.makeFolders [] store = (disk, none) :=
  isFolderPath_store.makeFolders_of_found fun _ =>
    locate_store (.into rfl (isLookedUp_store (by simp)) h (by simp) (.found h))

theorem saves_bothCases :
    Saves store (Machine.bare [] []) [spelledCase, countedCase] bothSaved := by
  have hnamed : ∀ name ∈ ["a-page-0.json", "b-page-0.json"], Disk.IsLookedUp .file name [] := by
    simp only [List.forall_mem_cons]
    exact ⟨⟨by decide, by decide, by simp, rfl⟩, ⟨by decide, by decide, by simp, rfl⟩, by simp⟩
  have hpath : pathFor store spelledCase.id = .ok (store.child "a-page-0.json") :=
    pathFor_of_isId rfl
  have hpath' : pathFor store countedCase.id = .ok (store.child "b-page-0.json") :=
    pathFor_of_isId rfl
  have hgiven : ∀ project score, project ≠ "" →
      (Value.field (scoredOf project score) "projectName").isTruthy = true ∧
        (Value.field (scoredOf project score) "category").isTruthy = true := by
    intro project score h
    simp [scoredOf, pageOf, Value.field, Value.field?, Value.lookup?, Value.same, Value.isTruthy, h]
  obtain ⟨hproject, hcategory⟩ := hgiven "a" (.text "90") (by decide)
  obtain ⟨hproject', hcategory'⟩ := hgiven "b" (.int 80) (by decide)
  refine .save isMadeOf_spelledCase (run_save hproject hcategory isMadeOf_spelledCase hpath
    makeFolders_empty (write_new rfl rfl (hnamed _ (by simp)) rfl (by decide))) ?_
  refine .save isMadeOf_countedCase (run_save hproject' hcategory' isMadeOf_countedCase hpath'
    (makeFolders_there rfl) (write_new rfl rfl (hnamed _ (by simp)) rfl (by decide))) ?_
  exact .none _

theorem isReadable_scoredOf (project : String) {score : Value} (hscore : Json.IsReadable score) :
    Json.IsReadable (.mapping (scoredOf project score)) := by
  have hfields : ∀ f ∈ [("projectName", Value.text project), ("category", .text "page"),
      ("totalScore", score)], Json.IsReadable f.2 := by simp [Json.IsReadable.text, hscore]
  exact .record hfields

theorem isReadable_eighty : Json.IsReadable (.int 80) :=
  .int (Nat.lt_of_lt_of_le (by decide) (Nat.pow_le_pow_right (by decide) (by decide : 2 ≤ 4300)))

theorem field_scoredOf (project : String) (score : Value) :
    Value.field (scoredOf project score) "totalScore" = score := by
  simp [scoredOf, pageOf, Value.field, Value.field?, Value.lookup?, Value.same]

/-- Two cases have been saved, and neither can be listed. -/
theorem listAll_bothSaved_fails :
    Saves store (Machine.bare [] []) [spelledCase, countedCase] bothSaved ∧
    spelledCase.IsOfJson ∧ countedCase.IsOfJson ∧
    (∃ failure, (listAll store).run bothSaved = (.error failure, bothSaved)) ∧
    ∃ failure, (search store (.mapping [])).run bothSaved = (.error failure, bothSaved) := by
  have hspelled := isReadable_scoredOf "a" (.text "90")
  have hcounted := isReadable_scoredOf "b" isReadable_eighty
  have hjson : spelledCase.IsOfJson := ⟨_, 0, isMadeOf_spelledCase, hspelled⟩
  have hjson' : countedCase.IsOfJson := ⟨_, 0, isMadeOf_countedCase, hcounted⟩
  refine ⟨saves_bothCases, hjson, hjson', ?_⟩
  obtain ⟨summaries, htells, listed, found, hlist, hsearch, hlisted, hfound⟩ :=
    saves_bothCases.exists_listing (by simp [hjson, hjson']) List.nodup_nil noDocumentLinks_bare
      (startsEmpty_bare _ _) nofun
  have hids : ¬countedCase.id = spelledCase.id := by decide
  have hlast : lastSaved [spelledCase, countedCase] = [spelledCase, countedCase] := by
    simp [lastSaved, hids]
  rw [hlast] at htells
  obtain ⟨told, told', rfl, htold, htold'⟩ : ∃ told told', summaries = [told, told'] ∧
      Tells spelledCase told ∧ Tells countedCase told' := by
    cases htells with
    | cons htold hothers =>
      cases hothers with
      | cons htold' hnone =>
        cases hnone
        exact ⟨_, _, rfl, htold, htold'⟩
  have hscore : scoreKey told = .text "90" := by
    rw [scoreKey, htold.field_totalScore isMadeOf_spelledCase hspelled, field_scoredOf,
      Json.reread_text]
    rfl
  have hscore' : scoreKey told' = .int 80 := by
    rw [scoreKey, htold'.field_totalScore isMadeOf_countedCase hcounted, field_scoredOf]
    rfl
  have hfails : ∀ outcome, IsListing [told, told'] outcome →
      ∃ failure, outcome = .error failure := by
    intro outcome h
    cases outcome with
    | error failure => exact ⟨failure, rfl⟩
    | ok sorted =>
      obtain ⟨kind, hkind⟩ := h.alike sorted rfl (by simp)
      have htext := hkind told (by simp)
      have hnumber := hkind told' (by simp)
      rw [hscore] at htext
      rw [hscore', ← htext] at hnumber
      cases hnumber
  obtain ⟨failure, hfailure⟩ := hfails listed hlisted
  obtain ⟨failure', hfailure'⟩ := hfails found hfound
  exact ⟨⟨failure, by rw [hlist, hfailure]; rfl⟩, ⟨failure', by rw [hsearch, hfailure']; rfl⟩⟩

end BestCases

end GuestCode
