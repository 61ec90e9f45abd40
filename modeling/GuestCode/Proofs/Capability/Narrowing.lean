import GuestCode.Proofs.Capability.Listing
import GuestCode.Proofs.Data.ValueOrder

/-!
# Narrowed searches

A filter that is added to a search, or a least score that is raised, takes cases away and adds none,
and a further keyword adds cases and takes none away. As long as the scores of the cases found have
an order, the others keep their places: what is left out before sorting does not change the order
of the rest. Among scores with a NaN there is no order, and cases without one may change places when
one with it goes.

## Main statements

* `BestCases.search_narrowed`: what a narrowed search finds, and what further keywords find.
* `BestCases.search_reorders`: a filter that changes the order of two cases.
-/

namespace GuestCode.BestCases

/-! ## What a query lets through -/

variable {s : Summary} {document : Value} {entries : List (Value × Value)}

/-- A case is what a query asks for. -/
structure Query.Admits (q : Query) (document : Value) (entries : List (Value × Value))
    (s : Summary) : Prop where
  category : passes q.category document "category" = .ok true
  project : passes q.project document "projectName" = .ok true
  tags : hasTag q.tags s.tags = .ok true
  score : hasScore q.minScore s = .ok true
  keywords : hasKeyword q.keywords (searchText s (Value.field entries "description")) = true

/-- What is found after a check has passed the check. -/
theorem exists_of_check {check : Except Failure Bool} {next : Except Failure (Option Summary)}
    (h : (do if ← check then next else pure none) = .ok (some s)) :
    check = .ok true ∧ next = .ok (some s) := by
  obtain ⟨passed, hpassed, h⟩ := Outcome.exists_of_bind_eq_ok h
  cases passed with
  | true => exact ⟨hpassed, h⟩
  | false => cases h

theorem match?_eq_some_iff {q : Query} : match? q document = .ok (some s) ↔
    summary document = .ok s ∧ ∃ entries, document.entries = .ok entries ∧
      q.Admits document entries s := by
  constructor
  · intro h
    unfold match? at h
    obtain ⟨s', hsummary, h⟩ := Outcome.exists_of_bind_eq_ok h
    obtain ⟨hcategory, h⟩ := exists_of_check h
    obtain ⟨hproject, h⟩ := exists_of_check h
    obtain ⟨htags, h⟩ := exists_of_check h
    obtain ⟨hscore, h⟩ := exists_of_check h
    obtain ⟨entries, hentries, h⟩ := Outcome.exists_of_bind_eq_ok h
    split at h
    · next hkeywords =>
      obtain rfl := Option.some.inj (Except.ok.inj h)
      exact ⟨hsummary, entries, hentries, hcategory, hproject, htags, hscore, hkeywords⟩
    · cases h
  · rintro ⟨hsummary, entries, hentries, hcategory, hproject, htags, hscore, hkeywords⟩
    unfold match?
    rw [hsummary, hcategory, hproject, hentries]
    dsimp only [bind, Except.bind]
    rw [if_pos rfl, if_pos rfl, htags, hscore]
    dsimp only
    rw [if_pos rfl, if_pos rfl, hkeywords]
    rfl

/-- A case that has come as far as its score has been asked for it. -/
theorem exists_hasScore {q : Query} {found : Option Summary} (h : match? q document = .ok found)
    (hsummary : summary document = .ok s)
    (hcategory : passes q.category document "category" = .ok true)
    (hproject : passes q.project document "projectName" = .ok true)
    (htags : hasTag q.tags s.tags = .ok true) : ∃ enough, hasScore q.minScore s = .ok enough := by
  unfold match? at h
  rw [hsummary, hcategory, hproject] at h
  dsimp only [bind, Except.bind] at h
  rw [if_pos rfl, if_pos rfl, htags] at h
  dsimp only at h
  rw [if_pos rfl] at h
  obtain ⟨enough, henough, -⟩ := Outcome.exists_of_bind_eq_ok h
  exact ⟨enough, henough⟩

/-! ## Narrower queries -/

/-- A value is kept, or given where none was. -/
def KeptOrAdded (old new : Value) : Prop := new = old ∨ old.isTruthy = false

/-- A least score is kept, given where none was, or raised. -/
def KeptOrRaised (old new : Value) : Prop :=
  new = old ∨ old = .null ∨ Value.less old new = .ok true

theorem KeptOrAdded.passes {old new : Value} {name : String} (h : KeptOrAdded old new)
    (hnew : passes new document name = .ok true) : passes old document name = .ok true := by
  rcases h with rfl | hfalse
  · exact hnew
  · rw [BestCases.passes, if_neg (by rw [hfalse]; exact Bool.false_ne_true)]

theorem hasScore_eq_ok_iff {least : Value} (hleast : least ≠ .null) {enough : Bool} :
    hasScore least s = .ok enough ↔ Value.less (scoreKey s) least = .ok !enough := by
  unfold BestCases.hasScore
  split
  · exact absurd rfl hleast
  · cases Value.less (scoreKey s) least with
    | error failure => simp [Except.map]
    | ok below => cases below <;> cases enough <;> simp [Except.map]

theorem KeptOrRaised.hasScore {old new : Value} (h : KeptOrRaised old new) {enough : Bool}
    (hold : hasScore old s = .ok enough) (hnew : hasScore new s = .ok true) :
    hasScore old s = .ok true := by
  rcases h with rfl | rfl | hraised
  · exact hnew
  · rfl
  · have hnull : ∀ {v w}, Value.less v w = .ok true → v ≠ .null ∧ w ≠ .null := by
      intro v w h
      obtain ⟨kind, hv, hw⟩ := Value.exists_orderKind_of_less h
      constructor <;> rintro rfl <;> contradiction
    obtain ⟨hleast, hleast'⟩ := hnull hraised
    cases enough with
    | true => exact hold
    | false =>
      -- What is below the old least score is below the new one.
      have hbelow := Value.less_trans ((hasScore_eq_ok_iff hleast).mp hold) hraised
      cases hbelow.symm.trans ((hasScore_eq_ok_iff hleast').mp hnew)

/-- The one query asks for what the other one asks for, and maybe for more. -/
structure Query.Narrows (q q' : Query) : Prop where
  category : KeptOrAdded q.category q'.category
  project : KeptOrAdded q.project q'.project
  tags : q'.tags = q.tags ∨ q.tags = []
  minScore : KeptOrRaised q.minScore q'.minScore
  keywords : q'.keywords = q.keywords

/-- The two queries differ in keywords only, of which the second one has those of the first, which
has some. -/
structure Query.Widens (q q' : Query) : Prop where
  others : q' = { q with keywords := q'.keywords }
  some : q.keywords ≠ []
  keywords : q.keywords ⊆ q'.keywords

theorem Query.Narrows.found {q q' : Query} (h : q.Narrows q') {found : Option Summary}
    (hfound : match? q document = .ok found) (hnew : match? q' document = .ok (some s)) :
    found = some s := by
  obtain ⟨hsummary, entries, hentries, hnew⟩ := match?_eq_some_iff.mp hnew
  have hcategory := h.category.passes hnew.category
  have hproject := h.project.passes hnew.project
  have htags : hasTag q.tags s.tags = .ok true := by
    rcases h.tags with heq | hnone
    · rw [← heq]
      exact hnew.tags
    · rw [hnone]
      rfl
  obtain ⟨enough, henough⟩ := exists_hasScore hfound hsummary hcategory hproject htags
  have hall := match?_eq_some_iff.mpr ⟨hsummary, entries, hentries, hcategory, hproject, htags,
    h.minScore.hasScore henough hnew.score, h.keywords ▸ hnew.keywords⟩
  exact Except.ok.inj (hfound.symm.trans hall)

theorem Query.Widens.found {q q' : Query} (h : q.Widens q') {found : Option Summary}
    (hold : match? q document = .ok (.some s)) (hfound : match? q' document = .ok found) :
    found = .some s := by
  obtain ⟨hsummary, entries, hentries, hold⟩ := match?_eq_some_iff.mp hold
  have hkeywords : hasKeyword q'.keywords (searchText s (Value.field entries "description")) =
      true := by
    have hsome : q.keywords.isEmpty = false := by simpa using h.some
    have hany := hold.keywords
    rw [hasKeyword, hsome, Bool.false_or, List.any_eq_true] at hany
    obtain ⟨keyword, hmem, hoccurs⟩ := hany
    rw [hasKeyword, Bool.or_eq_true, List.any_eq_true]
    exact .inr ⟨keyword, h.keywords hmem, hoccurs⟩
  have hall : match? q' document = .ok (.some s) := by
    rw [h.others]
    exact match?_eq_some_iff.mpr ⟨hsummary, entries, hentries, hold.category, hold.project,
      hold.tags, hold.score, hkeywords⟩
  exact Except.ok.inj (hfound.symm.trans hall)

/-! ## What is sorted -/

theorem isSound_field (h : (Value.mapping entries).IsSound) (name : String) :
    (Value.field entries name).IsSound := by
  cases h with
  | mapping keys distinct values =>
    rw [Value.field, Value.field?]
    clear keys distinct
    induction entries with
    | nil => exact .null
    | cons e rest ih =>
      obtain ⟨he, hrest⟩ := List.forall_mem_cons.mp values
      rw [Value.lookup?]
      split
      · exact he
      · exact ih hrest

/-- The total score of a summary is that of the document. -/
theorem exists_totalScore_of_summary (h : summary document = .ok s) :
    ∃ entries, document.entries = .ok entries ∧
      s.field "totalScore" = Value.field entries "totalScore" := by
  unfold summary at h
  obtain ⟨entries, hentries, h⟩ := Outcome.exists_of_bind_eq_ok h
  obtain ⟨notes, -, h⟩ := Outcome.exists_of_bind_eq_ok h
  obtain ⟨tags, -, h⟩ := Outcome.exists_of_bind_eq_ok h
  obtain rfl := Except.ok.inj h
  have hgiven := lookup_scoresOf entries "totalScore"
  rw [if_pos (by decide)] at hgiven
  exact ⟨entries, hentries, hgiven⟩

/-- The score of a case is a value that has been read. -/
theorem isSound_scoreKey (hsound : document.IsSound) (h : summary document = .ok s) :
    (scoreKey s).IsSound := by
  obtain ⟨entries, hentries, hfield⟩ := exists_totalScore_of_summary h
  have hmapping : document = .mapping entries := by
    cases hsound <;> simp [Value.entries, Value.unfolded] at hentries
    rw [hentries]
  unfold scoreKey orElse
  split
  · rw [hfield]
    exact isSound_field (hmapping ▸ hsound) "totalScore"
  · exact .int 0

/-- What is read from the folder has been put together by the reader. -/
theorem isSound_of_run_documents {folder : Path} {m n : Machine} {cases : List Value}
    (h : (documents folder).run m = (.ok cases, n)) : ∀ document ∈ cases, document.IsSound := by
  intro document hmem
  rw [documents, Action.run_onDisk] at h
  obtain ⟨hlook, -⟩ := Prod.mk.inj h
  obtain ⟨there, -, hlook⟩ := Outcome.exists_of_bind_eq_ok hlook
  cases there with
  | false =>
    cases hlook
    cases hmem
  | true =>
    cases hlook
    obtain ⟨name, -, hread⟩ := List.mem_filterMap.mp hmem
    obtain ⟨text, -, hread⟩ := Outcome.exists_of_bind_eq_ok (Outcome.eq_ok_of_toOption hread)
    exact Value.isPassedOn_isSound.of_read (Outcome.mapError_eq_ok_iff.mp hread)

theorem forall₂_of_mapM {α β ε : Type} {f : α → Except ε β} {xs : List α} {ys : List β}
    (h : xs.mapM f = .ok ys) : List.Forall₂ (fun x y => f x = .ok y) xs ys := by
  induction xs generalizing ys with
  | nil =>
    cases h
    exact .nil
  | cons x xs ih =>
    rw [List.mapM_cons] at h
    obtain ⟨y, hy, h⟩ := Outcome.exists_of_bind_eq_ok h
    obtain ⟨ys, hys, h⟩ := Outcome.exists_of_bind_eq_ok h
    cases h
    exact .cons hy (ih hys)

/-- What a search comes to that has returned. -/
theorem exists_of_search {folder : Path} {parameter reply : Value} {m n : Machine}
    (h : (search folder parameter).run m = (.ok reply, n)) :
    ∃ entries q cases found sorted, parameter.optionalEntries = .ok entries ∧
      Query.ofEntries entries = .ok q ∧ (documents folder).run m = (.ok cases, m) ∧
      List.Forall₂ (fun document told => match? q document = .ok told) cases found ∧
      Value.sortDescending scoreKey (found.filterMap id) = .ok sorted ∧
      reply = searchReply sorted := by
  unfold search at h
  obtain ⟨entries, _, hrun, h⟩ := Action.exists_of_run_bind h
  obtain ⟨hentries, rfl⟩ := Action.run_ofExcept_eq_ok_iff.mp hrun
  obtain ⟨q, _, hrun, h⟩ := Action.exists_of_run_bind h
  obtain ⟨hq, rfl⟩ := Action.run_ofExcept_eq_ok_iff.mp hrun
  obtain ⟨cases, m', hcases, h⟩ := Action.exists_of_run_bind h
  obtain rfl : m = m' := by
    rw [documents, Action.run_onDisk] at hcases
    exact (Prod.mk.inj hcases).2
  obtain ⟨found, _, hrun, h⟩ := Action.exists_of_run_bind h
  obtain ⟨hfound, rfl⟩ := Action.run_ofExcept_eq_ok_iff.mp hrun
  obtain ⟨sorted, _, hrun, h⟩ := Action.exists_of_run_bind h
  obtain ⟨hsorted, rfl⟩ := Action.run_ofExcept_eq_ok_iff.mp hrun
  rw [Action.run_pure] at h
  exact ⟨entries, q, cases, found, sorted, hentries, hq, hcases, forall₂_of_mapM hfound, hsorted,
    (Except.ok.inj (Prod.mk.inj h).1).symm⟩

/-- The one search finds nothing but what the other one finds, each case as often at most; in the
same order, if the scores that the other one finds have one. -/
structure Keeps (found found' : List Summary) : Prop where
  members : found'.Subperm found
  order : (∀ s ∈ found, ¬(scoreKey s).HoldsNaN) → found'.Sublist found

theorem sublist_filterMap {told told' : List (Option Summary)}
    (h : List.Forall₂ (fun r r' => ∀ s, r' = some s → r = some s) told told') :
    (told'.filterMap id).Sublist (told.filterMap id) := by
  induction h with
  | nil => exact .refl _
  | @cons r r' told told' hfirst _ ih =>
    cases r' with
    | none => exact ih.trans ((List.sublist_cons_self r told).filterMap id)
    | some s =>
      obtain rfl := hfirst s rfl
      exact ih.cons_cons s

/-- Sorting keeps what there was before it. -/
theorem keeps_sorted {q q' : Query} {cases : List Value} {told told' : List (Option Summary)}
    {sorted sorted' : List Summary} (hcases : ∀ document ∈ cases, document.IsSound)
    (htold : List.Forall₂ (fun document r => match? q document = .ok r) cases told)
    (htold' : List.Forall₂ (fun document r => match? q' document = .ok r) cases told')
    (hsorted : Value.sortDescending scoreKey (told.filterMap id) = .ok sorted)
    (hsorted' : Value.sortDescending scoreKey (told'.filterMap id) = .ok sorted')
    (hfound : ∀ document r s, match? q document = .ok r → match? q' document = .ok (some s) →
      r = some s) : Keeps sorted sorted' := by
  have hperm : ∀ {xs ys}, Value.sortDescending scoreKey xs = .ok ys → ys.Perm xs := by
    intro xs ys h
    have hsorts := Value.sorts_sortDescending scoreKey xs
    rw [h] at hsorts
    exact hsorts.1
  have hsublist : (told'.filterMap id).Sublist (told.filterMap id) := by
    refine sublist_filterMap (List.forall₂_iff_get.mpr ⟨?_, fun i hi hi' s hs => ?_⟩)
    · exact htold.length_eq.symm.trans htold'.length_eq
    · have hi'' : i < cases.length := htold.length_eq ▸ hi
      exact hfound _ _ s (htold.get hi'' hi) (hs ▸ htold'.get hi'' hi')
  refine ⟨?_, fun hnan => ?_⟩
  · exact ((hperm hsorted').subperm.trans hsublist.subperm).trans (hperm hsorted).symm.subperm
  · refine Value.sublist_sortDescending Value.isWeakOrder_less (fun s hs => ⟨?_, ?_⟩) hsorted
      hsublist hsorted'
    · obtain ⟨r, hr, rfl⟩ := List.mem_filterMap.mp hs
      obtain ⟨i, hi, hget⟩ := List.getElem_of_mem hr
      have hi' : i < cases.length := htold.length_eq ▸ hi
      have hmatch := htold.get hi' hi
      rw [List.get_eq_getElem, List.get_eq_getElem, hget] at hmatch
      exact isSound_scoreKey (hcases _ (List.getElem_mem hi')) (match?_eq_some_iff.mp hmatch).1
    · exact hnan s ((hperm hsorted).mem_iff.mpr hs)

/-! ## Narrower parameters -/

/-- A parameter asks for what another one asks for, and has filters where that one has none, or a
higher least score. -/
structure Narrows (entries entries' : List (Value × Value)) : Prop where
  category : KeptOrAdded (Value.field entries "category") (Value.field entries' "category")
  project : KeptOrAdded (Value.field entries "projectName") (Value.field entries' "projectName")
  tags : KeptOrAdded (Value.field entries "tags") (Value.field entries' "tags")
  minScore : KeptOrRaised (Value.field entries "minTotalScore")
    (Value.field entries' "minTotalScore")
  keywords : Value.field entries' "keywords" = Value.field entries "keywords"

/-- A parameter asks for some keywords, and another one for these and maybe for more. -/
structure Widens (entries entries' : List (Value × Value)) : Prop where
  others : ∀ name ∈ ["category", "projectName", "tags", "minTotalScore"],
    Value.field entries' name = Value.field entries name
  keywords : ∃ keywords keywords', Value.field entries "keywords" = .list keywords ∧
    Value.field entries' "keywords" = .list keywords' ∧ keywords ≠ [] ∧ keywords ⊆ keywords'

/-- The parts of a query. -/
theorem exists_of_ofEntries {q : Query} (h : Query.ofEntries entries = .ok q) :
    ∃ keywords tags, (Value.field entries "keywords").membersOrNone = .ok keywords ∧
      (Value.field entries "tags").membersOrNone = .ok tags ∧
      q = ⟨keywords.map fun k => lowerString k.display, tags, Value.field entries "category",
        Value.field entries "projectName", Value.field entries "minTotalScore"⟩ := by
  unfold Query.ofEntries at h
  obtain ⟨keywords, hkeywords, h⟩ := Outcome.exists_of_bind_eq_ok h
  obtain ⟨tags, htags, h⟩ := Outcome.exists_of_bind_eq_ok h
  obtain ⟨_, -, h⟩ := Outcome.exists_of_bind_eq_ok h
  exact ⟨keywords, tags, hkeywords, htags, (Except.ok.inj h).symm⟩

variable {entries' : List (Value × Value)} {q q' : Query}

theorem Narrows.query (h : Narrows entries entries') (hq : Query.ofEntries entries = .ok q)
    (hq' : Query.ofEntries entries' = .ok q') : q.Narrows q' := by
  obtain ⟨keywords, tags, hkeywords, htags, rfl⟩ := exists_of_ofEntries hq
  obtain ⟨keywords', tags', hkeywords', htags', rfl⟩ := exists_of_ofEntries hq'
  rw [h.keywords, hkeywords] at hkeywords'
  obtain rfl := Except.ok.inj hkeywords'
  refine ⟨h.category, h.project, ?_, h.minScore, rfl⟩
  rcases h.tags with heq | hfalse
  · rw [heq, htags] at htags'
    exact .inl (Except.ok.inj htags').symm
  · rw [Value.membersOrNone, if_neg (by rw [hfalse]; exact Bool.false_ne_true)] at htags
    exact .inr (Except.ok.inj htags).symm

theorem Widens.query (h : Widens entries entries') (hq : Query.ofEntries entries = .ok q)
    (hq' : Query.ofEntries entries' = .ok q') : q.Widens q' := by
  obtain ⟨keywords, tags, hkeywords, htags, rfl⟩ := exists_of_ofEntries hq
  obtain ⟨keywords', tags', hkeywords', htags', rfl⟩ := exists_of_ofEntries hq'
  obtain ⟨items, items', hitems, hitems', hsome, hmore⟩ := h.keywords
  have hlist : ∀ {items : List Value} {result}, items ≠ [] →
      (Value.list items).membersOrNone = .ok result → result = items := by
    intro items result hsome h
    have htruthy : (Value.list items).isTruthy = true := by simpa [Value.isTruthy] using hsome
    rw [Value.membersOrNone, if_pos htruthy] at h
    exact (Except.ok.inj h).symm
  rw [hitems] at hkeywords
  rw [hitems'] at hkeywords'
  obtain rfl := hlist hsome hkeywords
  obtain rfl := hlist (fun hnil => hsome (List.eq_nil_of_subset_nil (hnil ▸ hmore))) hkeywords'
  rw [h.others "tags" (by simp), htags] at htags'
  obtain rfl := Except.ok.inj htags'
  refine ⟨?_, by simpa using hsome, List.map_subset _ hmore⟩
  rw [h.others "category" (by simp), h.others "projectName" (by simp),
    h.others "minTotalScore" (by simp)]

/-- A search with further filters or a higher least score finds nothing that the search without
them does not find, and a search for further keywords finds whatever the search without them finds;
what both find has the same order, unless a score holds what is no number. -/
theorem search_narrowed {folder : Path} {m n n' : Machine} {parameter parameter' : Value}
    (hentries : parameter.optionalEntries = .ok entries)
    (hentries' : parameter'.optionalEntries = .ok entries') {reply reply' : Value}
    (h : (search folder parameter).run m = (.ok reply, n))
    (h' : (search folder parameter').run m = (.ok reply', n')) :
    ∃ found found', reply = searchReply found ∧ reply' = searchReply found' ∧
      (Narrows entries entries' → Keeps found found') ∧
      (Widens entries entries' → Keeps found' found) := by
  obtain ⟨entries₁, q, cases, told, sorted, hentries₁, hq, hcases, htold, hsorted, hreply⟩ :=
    exists_of_search h
  obtain ⟨entries₂, q', cases', told', sorted', hentries₂, hq', hcases', htold', hsorted',
    hreply'⟩ := exists_of_search h'
  obtain rfl := Except.ok.inj (hentries.symm.trans hentries₁)
  obtain rfl := Except.ok.inj (hentries'.symm.trans hentries₂)
  obtain rfl := Except.ok.inj (Prod.mk.inj (hcases.symm.trans hcases')).1
  have hsound := isSound_of_run_documents hcases
  refine ⟨sorted, sorted', hreply, hreply', fun hnarrows => ?_, fun hwidens => ?_⟩
  · exact keeps_sorted hsound htold htold' hsorted hsorted' fun document r s =>
      (hnarrows.query hq hq').found
  · exact keeps_sorted hsound htold' htold hsorted' hsorted fun document r s hr hs =>
      (hwidens.query hq hq').found hs hr

/-! ## Scores without an order -/

/-- A document with an id, a category and a score. -/
def scored (id category : String) (score : Value) : Value :=
  Value.record [("id", .text id), ("category", .text category), ("totalScore", score)]

/-- What is found of such a document. -/
def scoredSummary (id category : String) (score : Value) : Summary :=
  ⟨[("id", .text id), ("projectName", .null), ("category", .text category),
    ("description", .text ""), ("createdAt", .null), ("updatedAt", .null), ("tags", .list []),
    ("totalScore", score)], []⟩

/-- A document in the file of its id. -/
def fileOf (id : String) (document : Value) : Place × Disk.Entry :=
  (["cases", fileName id],
    .file (Utf8.encode ((Json.write .document document).toOption.getD "").toList))

/-- A machine with three cases in the store, the second of which has a score that is no number. -/
def unnumbered : Machine :=
  { Machine.bare [] [] with
    disk := ⟨[(["cases"], .folder), fileOf "a" (scored "a" "page" (.int 1)),
      fileOf "b" (scored "b" "form" (.float .nan)), fileOf "c" (scored "c" "page" (.int 2))]⟩ }

/-- The cases on this machine. -/
def unnumberedCases : List Value :=
  [scored "a" "page" (.int 1), scored "b" "form" (.float .nan), scored "c" "page" (.int 2)]

theorem isKept_scored (id category : String) {score : Value} (h : Json.IsKept score) :
    Json.IsKept (scored id category score) := by
  refine .record (by simp) ?_
  simp [h, Json.IsKept.text]

theorem readDocument_unnumbered (id : String) (document : Value) (hid : id ∈ ["a", "b", "c"])
    (hkept : Json.IsKept document)
    (hentry : unnumbered.disk.entry? ["cases", fileName id] = some (fileOf id document).2) :
    readDocument unnumbered.disk [] (store.child (fileName id)) = .ok document := by
  obtain ⟨text, htext⟩ := hkept.isPlain.exists_write .document
  have hname : ∀ id ∈ ["a", "b", "c"], (fileName id ≠ "" ∧ fileName id ≠ ".") ∧
      fileName id ≠ ".." ∧ [fileName id] ≠ [""] ∧ Disk.isTooLong (fileName id) = false ∧
      Disk.hasNul (store.child (fileName id)) = false ∧
      (store.child (fileName id)).display.utf8ByteSize ≤ Disk.maxPathLength := by decide +kernel
  obtain ⟨hself, hup, hother, hnotLong, hnul, hshort⟩ := hname id hid
  rw [fileOf, htext] at hentry
  have hholds : unnumbered.disk.Holds [] (store.child (fileName id)) ["cases", fileName id]
      (Utf8.encode text.toList) :=
    ⟨hnul, Disk.locate_eq_ok_iff.mpr ⟨hshort, .into rfl (isLookedUp_store hother) rfl nofun
      (.into rfl ⟨hself, hup, nofun, hnotLong⟩ hentry (by simp) (.found hentry))⟩⟩
  rw [readDocument_eq hholds (Json.not_mem_of_write htext), hkept.isReadable.read_write htext,
    hkept.reread_eq]
  rfl

theorem documents_unnumbered :
    (documents store).run unnumbered = (.ok unnumberedCases, unnumbered) := by
  have hlocate : unnumbered.disk.locate [] .thing store = .ok (.found ["cases"] .folder) :=
    locate_store (.into rfl (isLookedUp_store (by simp)) rfl (by simp) (.found rfl))
  have hfolder : unnumbered.disk.isFolder [] store = .ok true :=
    Disk.isFolder_eq_true_iff.mpr ⟨["cases"], rfl, hlocate⟩
  have hnames : unnumbered.disk.names [] store = ["a", "b", "c"].map fileName := by
    rw [Disk.names, hlocate]
    exact List.mergeSort_of_pairwise (by decide +kernel)
  have hnumber : ∀ {n : Int}, n.natAbs < 10 → Json.IsKept (.int n) := fun h =>
    .int (Nat.lt_of_lt_of_le h (Nat.le_self_pow (by decide) 10))
  have ha := readDocument_unnumbered "a" _ (by decide)
    (isKept_scored "a" "page" (hnumber (by decide : (1 : Int).natAbs < 10))) rfl
  have hb := readDocument_unnumbered "b" _ (by decide)
    (isKept_scored "b" "form" (.float (rfl : Json.rereadFloat .nan = .nan))) rfl
  have hc := readDocument_unnumbered "c" _ (by decide)
    (isKept_scored "c" "page" (hnumber (by decide : (2 : Int).natAbs < 10))) rfl
  have hdocuments : (["a", "b", "c"].map fileName).filter isDocumentName =
      ["a", "b", "c"].map fileName := by decide +kernel
  have hworkdir : unnumbered.workdir = [] := rfl
  rw [documents, Action.run_onDisk, hworkdir, hfolder]
  dsimp only [bind, Except.bind]
  rw [if_pos rfl, hnames, hdocuments, List.map_cons, List.map_cons, List.map_cons, List.map_nil,
    List.filterMap_cons, ha, List.filterMap_cons, hb, List.filterMap_cons, hc]
  rfl

/-- With no filter the case without a proper score stands between the others; the category leaves it
out, and the others change places. -/
theorem search_reorders :
    Narrows [] [(.text "category", .text "page")] ∧ ∃ found found',
      (search store (.mapping [])).run unnumbered = (.ok (searchReply found), unnumbered) ∧
      (search store (.mapping [(.text "category", .text "page")])).run unnumbered =
        (.ok (searchReply found'), unnumbered) ∧
      found.map (Summary.field · "id") = [.text "a", .text "b", .text "c"] ∧
      found'.map (Summary.field · "id") = [.text "c", .text "a"] ∧
      ¬(found'.map (Summary.field · "id")).Sublist (found.map (Summary.field · "id")) := by
  have hall : unnumberedCases.mapM (match? anything) =
      .ok [some (scoredSummary "a" "page" (.int 1)), some (scoredSummary "b" "form" (.float .nan)),
        some (scoredSummary "c" "page" (.int 2))] := by cbv
  have hpages : unnumberedCases.mapM (match? ⟨[], [], .text "page", .null, .null⟩) =
      .ok [some (scoredSummary "a" "page" (.int 1)), none,
        some (scoredSummary "c" "page" (.int 2))] := by cbv
  have hpage : Query.ofEntries [(.text "category", .text "page")] =
      .ok ⟨[], [], .text "page", .null, .null⟩ := by cbv
  refine ⟨⟨.inr (by cbv), .inl (by cbv), .inl (by cbv), .inl (by cbv), by cbv⟩,
    [scoredSummary "a" "page" (.int 1), scoredSummary "b" "form" (.float .nan),
      scoredSummary "c" "page" (.int 2)],
    [scoredSummary "c" "page" (.int 2), scoredSummary "a" "page" (.int 1)], ?_, ?_, ?_, ?_, ?_⟩
  · rw [run_search_entries rfl ofEntries_nil documents_unnumbered hall]
    refine congrArg (fun sorted => (sorted, unnumbered)) ?_
    cbv
  · rw [run_search_entries rfl hpage documents_unnumbered hpages]
    refine congrArg (fun sorted => (sorted, unnumbered)) ?_
    cbv
  · cbv
  · cbv
  · intro hsublist
    have hdisplayed := hsublist.map Value.display
    revert hdisplayed
    decide +kernel

/-- A parameter that asks for the cases of the category with a score. -/
def pagesFrom (least : Int) : List (Value × Value) :=
  [(.text "category", .text "page"), (.text "minTotalScore", .int least)]

theorem ofEntries_pagesFrom (least : Int) :
    Query.ofEntries (pagesFrom least) = .ok ⟨[], [], .text "page", .null, .int least⟩ := by cbv

theorem optionalEntries_pagesFrom (least : Int) :
    (Value.mapping (pagesFrom least)).optionalEntries = .ok (pagesFrom least) := rfl

/-- Of the two cases of the category one has a score of two at least. -/
theorem search_narrowed_least : ∃ found found',
    (search store (.mapping (pagesFrom 1))).run unnumbered =
      (.ok (searchReply found), unnumbered) ∧
    (search store (.mapping (pagesFrom 2))).run unnumbered =
      (.ok (searchReply found'), unnumbered) ∧
    Keeps found found' := by
  have hboth : unnumberedCases.mapM (match? ⟨[], [], .text "page", .null, .int 1⟩) =
      .ok [some (scoredSummary "a" "page" (.int 1)), none,
        some (scoredSummary "c" "page" (.int 2))] := by cbv
  have hone : unnumberedCases.mapM (match? ⟨[], [], .text "page", .null, .int 2⟩) =
      .ok [none, none, some (scoredSummary "c" "page" (.int 2))] := by cbv
  have hbothSorted : Value.sortDescending scoreKey
      ([some (scoredSummary "a" "page" (.int 1)), none,
        some (scoredSummary "c" "page" (.int 2))].filterMap id) =
      .ok [scoredSummary "c" "page" (.int 2), scoredSummary "a" "page" (.int 1)] := by cbv
  have honeSorted : Value.sortDescending scoreKey
      ([none, none, some (scoredSummary "c" "page" (.int 2))].filterMap id) =
      .ok [scoredSummary "c" "page" (.int 2)] := by cbv
  have hentries := optionalEntries_pagesFrom
  have hrun := run_search_entries (hentries 1) (ofEntries_pagesFrom 1) documents_unnumbered hboth
  have hrun' := run_search_entries (hentries 2) (ofEntries_pagesFrom 2) documents_unnumbered hone
  rw [hbothSorted] at hrun
  rw [honeSorted] at hrun'
  obtain ⟨found, found', hreply, hreply', hkeeps, -⟩ :=
    search_narrowed (hentries 1) (hentries 2) hrun hrun'
  refine ⟨found, found', hreply ▸ hrun, hreply' ▸ hrun', hkeeps ?_⟩
  exact ⟨.inl (by cbv), .inl (by cbv), .inl (by cbv), .inr (.inr (by cbv)), by cbv⟩

end GuestCode.BestCases
