import GuestCode.Proofs.Capability.GuideSelection
import Mathlib.Data.Prod.Lex
import Mathlib.Data.String.Basic

/-!
# Which guides are used

The guides that are asked for are looked at in the order of their rank. One of them is used if it
fits: all that it requires has been asked for, and it excludes none of those that are used before
it.

Both conditions look one way only. That a guide is excluded by one of a higher rank does not keep it
from being used, and that a required guide has been asked for does not mean that it fits itself. So
guides that are used together may exclude one another, and may miss what they require; each of the
two is said here exactly.

## Main statements

* `Guides.mem_used_iff`: the guides that are used are those that fit.
* `Guides.pairwise_used`: a guide that is used excludes none of a higher rank.
* `Guides.combine_compatible_iff`: when no guide that is used excludes another one.
* `Guides.combine_complete_iff`: when all that used guides require is used.
-/

namespace GuestCode.Guides

variable {guides : List Guide} {ids : List String} {g h : Guide} {folder : Path} {m : Machine}

/-! ## The order of guides -/

/-- What ranks a guide: its scope, then its priority, then its version. -/
def rankKey (g : Guide) : Nat ×ₗ Int ×ₗ String :=
  toLex (Guide.scopeRank g.scope, toLex (g.priority, g.version))

theorem outranks_iff : outranks g h = true ↔ rankKey h < rankKey g := by
  simp only [outranks, rankKey, Prod.Lex.toLex_lt_toLex, Bool.or_eq_true, Bool.and_eq_true,
    decide_eq_true_eq, beq_iff_eq]
  constructor
  · rintro (hscope | ⟨hscope, hpriority | ⟨hpriority, hversion⟩⟩)
    · exact .inl hscope
    · exact .inr ⟨hscope.symm, .inl hpriority⟩
    · exact .inr ⟨hscope.symm, .inr ⟨hpriority.symm, hversion⟩⟩
  · rintro (hscope | ⟨hscope, hpriority | ⟨hpriority, hversion⟩⟩)
    · exact .inl hscope
    · exact .inr ⟨hscope.symm, .inl hpriority⟩
    · exact .inr ⟨hscope.symm, .inr ⟨hpriority.symm, hversion⟩⟩

theorem outranks_eq_false_iff : outranks g h = false ↔ rankKey g ≤ rankKey h := by
  rw [← Bool.not_eq_true, outranks_iff, not_lt]

/-- Guides are ranked from the highest rank down. -/
theorem pairwise_ranked (guides : List Guide) :
    (ranked guides).Pairwise fun g h => outranks h g = false := by
  have hsorted := @List.pairwise_mergeSort Guide (fun g h => !outranks h g)
    (fun g h k hgh hhk => by
      rw [Bool.not_eq_true', outranks_eq_false_iff] at hgh hhk ⊢
      exact hhk.trans hgh)
    (fun g h => by
      rw [Bool.or_eq_true, Bool.not_eq_true', Bool.not_eq_true', outranks_eq_false_iff,
        outranks_eq_false_iff]
      exact le_total _ _)
    guides
  exact hsorted.imp fun hle => (Bool.not_eq_true' _).mp hle

/-- The guides that are asked for, in the order of their rank. -/
def ranking (guides : List Guide) (ids : List String) : List Guide := ranked (requested guides ids)

theorem mem_ranking : g ∈ ranking guides ids ↔ g ∈ requested guides ids :=
  (List.mergeSort_perm _ _).mem_iff

theorem nodup_ranking (guides : List Guide) (ids : List String) : (ranking guides ids).Nodup := by
  have hids : ((ranking guides ids).map Guide.id).Nodup :=
    ((List.mergeSort_perm _ _).map Guide.id).nodup_iff.mpr nodup_id_requested
  exact .of_map Guide.id hids

/-! ## Guides that fit -/

/-- A guide that is asked for fits if all that it requires has been asked for and it excludes none of
the guides that are used before it. -/
structure Fits (guides : List Guide) (ids : List String) (g : Guide) : Prop where
  required : ∀ id ∈ g.requires, id ∈ (requested guides ids).map Guide.id
  excluded : ∀ h ∈ used guides ids, [h, g].Sublist (ranking guides ids) → h.id ∉ g.excludes

theorem select_append (ids : List String) (selected before after : List Guide) :
    select ids selected (before ++ after) = select ids (select ids selected before) after := by
  induction before generalizing selected with
  | nil => rfl
  | cons g rest ih =>
    rw [List.cons_append, select, select]
    exact ih _

/-- In a list without repetitions, the members before one of them. -/
theorem sublist_pair_iff {α : Type} {a b : α} {before after : List α}
    (hnodup : (before ++ b :: after).Nodup) :
    [a, b].Sublist (before ++ b :: after) ↔ a ∈ before := by
  obtain ⟨-, hbehind, hapart⟩ := List.nodup_append.mp hnodup
  have hafter : b ∉ after := (List.nodup_cons.mp hbehind).1
  have hbefore : b ∉ before := fun hmem => hapart b hmem b (.head _) rfl
  constructor
  · intro h
    obtain ⟨front, back, hpair, hfront, hback⟩ := List.sublist_append_iff.mp h
    -- The pair is divided somewhere, and its second member stands only at the one place.
    match front, hpair with
    | [], hpair =>
      rw [List.nil_append] at hpair
      subst hpair
      cases hback with
      | cons _ hrest => exact absurd (hrest.subset (.tail _ (.head _))) hafter
      | cons_cons _ hrest => exact absurd (hrest.subset (.head _)) hafter
    | c :: front, hpair =>
      obtain ⟨rfl, -⟩ := List.cons.inj hpair
      exact hfront.subset (.head _)
  · intro h
    exact (List.singleton_sublist.mpr h).append (List.singleton_sublist.mpr (.head _))

theorem mem_of_mem_select {selected after : List Guide} (hg : g ∈ select ids selected after) :
    g ∈ selected ∨ g ∈ after := by
  obtain ⟨kept, hkept, heq⟩ := exists_select_eq ids selected after
  rw [heq] at hg
  exact (List.mem_append.mp hg).imp_right fun hmem => hkept.subset hmem

/-- Guides that are selected later do not change whether an earlier one is. -/
theorem mem_select_iff {selected after : List Guide} (hg : g ∉ after) :
    g ∈ select ids selected after ↔ g ∈ selected := by
  obtain ⟨kept, hkept, heq⟩ := exists_select_eq ids selected after
  rw [heq, List.mem_append]
  exact or_iff_left fun hmem => hg (hkept.subset hmem)

/-- A guide whose turn it is. -/
theorem mem_select_cons_iff {selected after : List Guide} (hnew : g ∉ selected) (hg : g ∉ after) :
    g ∈ select ids selected (g :: after) ↔
      (∀ h ∈ selected, h.id ∉ g.excludes) ∧ ∀ id ∈ g.requires, id ∈ ids := by
  have htest : (!(selected.any fun h => g.excludes.contains h.id) &&
      g.requires.all fun id => ids.contains id) = true ↔
      (∀ h ∈ selected, h.id ∉ g.excludes) ∧ ∀ id ∈ g.requires, id ∈ ids := by
    simp
  rw [select, mem_select_iff hg, ← htest]
  split
  · next hselected => exact iff_of_true (List.mem_append_right _ (.head _)) hselected
  · next hleft => exact iff_of_false hnew hleft

/-- What has been selected when it is the turn of a guide are the selected guides before it. -/
theorem mem_select_before_iff {before after : List Guide} (hnodup : (before ++ g :: after).Nodup) :
    h ∈ select ids [] before ↔
      h ∈ select ids [] (before ++ g :: after) ∧ [h, g].Sublist (before ++ g :: after) := by
  obtain ⟨-, -, hapart⟩ := List.nodup_append.mp hnodup
  have hlater : h ∈ before → (h ∈ select ids [] (before ++ g :: after) ↔ h ∈ select ids [] before) := by
    intro hbefore
    rw [select_append]
    exact mem_select_iff fun hmem => hapart h hbefore h hmem rfl
  rw [sublist_pair_iff hnodup]
  constructor
  · intro hh
    have hbefore : h ∈ before := (mem_of_mem_select hh).resolve_left List.not_mem_nil
    exact ⟨(hlater hbefore).mpr hh, hbefore⟩
  · rintro ⟨hh, hbefore⟩
    exact (hlater hbefore).mp hh

/-- A guide among those that are selected from. -/
theorem mem_select_append_iff {before after : List Guide} (hnodup : (before ++ g :: after).Nodup) :
    g ∈ select ids [] (before ++ g :: after) ↔
      (∀ h ∈ select ids [] (before ++ g :: after),
        [h, g].Sublist (before ++ g :: after) → h.id ∉ g.excludes) ∧
      ∀ id ∈ g.requires, id ∈ ids := by
  obtain ⟨-, hbehind, hapart⟩ := List.nodup_append.mp hnodup
  have hnew : g ∉ select ids [] before := by
    intro hmem
    have hbefore : g ∈ before := (mem_of_mem_select hmem).resolve_left List.not_mem_nil
    exact hapart g hbefore g (.head _) rfl
  have hturn : g ∈ select ids [] (before ++ g :: after) ↔
      (∀ h ∈ select ids [] before, h.id ∉ g.excludes) ∧ ∀ id ∈ g.requires, id ∈ ids := by
    rw [select_append]
    exact mem_select_cons_iff hnew (List.nodup_cons.mp hbehind).1
  rw [hturn]
  refine and_congr_left fun _ => forall_congr' fun h => ?_
  rw [mem_select_before_iff hnodup, and_imp]

/-- The guides that are used are those that are asked for and fit. -/
theorem mem_used_iff : g ∈ used guides ids ↔ g ∈ requested guides ids ∧ Fits guides ids g := by
  by_cases hmem : g ∈ ranking guides ids
  swap
  · exact ⟨fun hused => absurd (mem_ranking.mpr (mem_requested_of_mem_used hused)) hmem,
      fun hfits => absurd (mem_ranking.mpr hfits.1) hmem⟩
  obtain ⟨before, after, hranking⟩ := List.append_of_mem hmem
  have hnodup : (before ++ g :: after).Nodup := hranking ▸ nodup_ranking guides ids
  have hturn := @mem_select_append_iff ((ranking guides ids).map Guide.id) g _ _ hnodup
  rw [← hranking] at hturn
  have hrequired : (∀ id ∈ g.requires, id ∈ (ranking guides ids).map Guide.id) ↔
      ∀ id ∈ g.requires, id ∈ (requested guides ids).map Guide.id :=
    forall₂_congr fun _ _ => ((List.mergeSort_perm _ _).map Guide.id).mem_iff
  rw [hrequired] at hturn
  exact hturn.trans ⟨fun ⟨hexcluded, hrequired⟩ => ⟨mem_ranking.mp hmem, hrequired, hexcluded⟩,
    fun ⟨_, hrequired, hexcluded⟩ => ⟨hexcluded, hrequired⟩⟩

theorem sublist_used (guides : List Guide) (ids : List String) :
    (used guides ids).Sublist (ranking guides ids) := by
  obtain ⟨kept, hkept, heq⟩ :=
    exists_select_eq ((ranking guides ids).map Guide.id) [] (ranking guides ids)
  have hused : used guides ids = kept := by
    rw [← List.nil_append kept, ← heq]
    rfl
  exact hused ▸ hkept

/-- A guide that is used comes after those of a higher rank, and excludes none of them. -/
theorem pairwise_used (guides : List Guide) (ids : List String) :
    (used guides ids).Pairwise fun g h => outranks h g = false ∧ g.id ∉ h.excludes := by
  refine List.pairwise_iff_forall_sublist.mpr fun {g h} hpair => ⟨?_, ?_⟩
  · have hranked := pairwise_ranked (requested guides ids)
    exact List.pairwise_iff_forall_sublist.mp hranked (hpair.trans (sublist_used guides ids))
  · have hg : g ∈ used guides ids := hpair.subset (.head _)
    have hfits := (mem_used_iff.mp (hpair.subset (.tail _ (.head _)))).2
    exact hfits.excluded g hg (hpair.trans (sublist_used guides ids))

/-! ## Two guides in a folder -/

/-- The files of a folder that holds guides only. -/
theorem files_of_flat {disk : Disk} {workdir : Place} {names : List String}
    (hthere : disk.isFolder workdir folder = .ok true)
    (hnames : disk.names workdir folder = names)
    (hguides : ∀ name ∈ names,
      isGuideName name = true ∧ disk.isFolder workdir (folder.child name) = .ok false)
    (hsorted : (names.map folder.child).Pairwise fun p q => (!q.precedes p) = true) :
    files disk workdir folder = .ok (names.map folder.child) := by
  have hown : names.filter isGuideName = names :=
    List.filter_eq_self.mpr fun name hname => (hguides name hname).1
  have hfound : filesUpTo disk workdir (disk.entries.length + 1) folder =
      .ok (names.map folder.child) := by
    rw [filesUpTo, hnames]
    dsimp only
    rw [@Outcome.mapM_eq_ok_map _ _ _ _ (fun _ => []) _ fun name hname => ?inner, hown]
    case inner =>
      rw [(hguides name hname).2]
      rfl
    simp [pure, Except.pure, bind, Except.bind]
  rw [files, hthere]
  dsimp only [bind, Except.bind]
  rw [if_pos rfl, hfound]
  exact congrArg Except.ok (List.mergeSort_of_pairwise hsorted)

/-- A disk with two guides. -/
def pairDisk (first second : String) : Disk :=
  ⟨[(["guides"], .folder), (["guides", "a.md"], .file (Utf8.encode first.toList)),
    (["guides", "b.md"], .file (Utf8.encode second.toList))]⟩

/-- A machine with these guides. -/
def pairMachine (first second : String) : Machine :=
  { Machine.bare [] [] with disk := pairDisk first second }

/-- A guide with an id and a text and nothing else. -/
def plainGuide (id content : String) : Guide :=
  { id := id, summary := id, content := content.toList, file := id ++ ".md", tags := [],
    priority := 50, scope := "global", version := "1.0", isMandatory := false, requires := [],
    excludes := [] }

theorem holds_pair {first second name : String} {octets : List UInt8}
    (hentry : Disk.entry? (pairDisk first second) ["guides", name] = some (.file octets))
    (hname : name ∈ ["a.md", "b.md"]) :
    (pairDisk first second).Holds [] (guidesFolder.child name) ["guides", name] octets := by
  have hplain : Disk.IsPlain (guidesFolder.child name) := by
    simp only [List.mem_cons, List.not_mem_nil, or_false] at hname
    rcases hname with rfl | rfl
    all_goals exact ⟨rfl, by decide, by decide⟩
  refine ⟨hplain.noNul, hplain.locate_eq (fun k hk => ?_) hentry nofun⟩
  match k, hk with
  | 0, _ | 1, _ => rfl

theorem files_pair (first second : String) :
    files (pairDisk first second) [] guidesFolder =
      .ok [guidesFolder.child "a.md", guidesFolder.child "b.md"] := by
  have hfolder : Disk.IsPlain guidesFolder := ⟨rfl, by decide, by decide⟩
  have hlocate : (pairDisk first second).locate [] .thing guidesFolder =
      .ok (.found ["guides"] .folder) := by
    refine hfolder.locate_eq (fun k hk => ?_) rfl nofun
    match k, hk with
    | 0, _ => rfl
  have hnames : (pairDisk first second).names [] guidesFolder = ["a.md", "b.md"] := by
    have hsorted : ["a.md", "b.md"].Pairwise fun a b => decide (a ≤ b) = true := by decide
    rw [Disk.names, hlocate]
    exact List.mergeSort_of_pairwise hsorted
  have hguides : ∀ name ∈ ["a.md", "b.md"], isGuideName name = true := by decide
  have hnone : ∀ name ∈ ["a.md", "b.md"], isGuideName name = true ∧
      (pairDisk first second).isFolder [] (guidesFolder.child name) = .ok false := by
    intro name hname
    obtain ⟨octets, hentry⟩ : ∃ octets,
        Disk.entry? (pairDisk first second) ["guides", name] = some (.file octets) := by
      simp only [List.mem_cons, List.not_mem_nil, or_false] at hname
      rcases hname with rfl | rfl
      · exact ⟨_, rfl⟩
      · exact ⟨_, rfl⟩
    have hholds := holds_pair hentry hname
    refine ⟨hguides name hname, ?_⟩
    rw [Disk.isFolder, Disk.look, hholds.noNul, hholds.found]
    rfl
  exact files_of_flat (Disk.isFolder_of_locate rfl hlocate) hnames hnone (by decide)

/-- The two guides are listed if their files can be read. -/
theorem index_pair {first second : String} {g h : Guide} (hlines : '\r' ∉ (first ++ second).toList)
    (hg : (Guide.parse first.toList "a.md").toOption = some g)
    (hh : (Guide.parse second.toList "b.md").toOption = some h) :
    index (pairDisk first second) [] guidesFolder = .ok [g, h] := by
  rw [String.toList_append, List.mem_append, not_or] at hlines
  have ha : read (pairDisk first second) [] guidesFolder (guidesFolder.child "a.md") = .ok g :=
    (read_of_readText ((holds_pair rfl (.head _)).readText hlines.1)).trans
      (Outcome.eq_ok_of_toOption hg)
  have hb : read (pairDisk first second) [] guidesFolder (guidesFolder.child "b.md") = .ok h :=
    (read_of_readText ((holds_pair rfl (.tail _ (.head _))).readText hlines.2)).trans
      (Outcome.eq_ok_of_toOption hh)
  rw [index, files_pair]
  dsimp only [bind, Except.bind]
  rw [List.mapM_cons, List.mapM_cons, read?, read?, ha, hb]
  rfl

/-- Two guides that are asked for and already in their order. -/
theorem used_pair {g h : Guide} (hids : g.id = "a" ∧ h.id = "b")
    (hmandatory : g.isMandatory = false ∧ h.isMandatory = false)
    (hrank : outranks h g = false) : used [g, h] ["a", "b"] = select ["a", "b"] [] [g, h] := by
  have hrequested : requested [g, h] ["a", "b"] = [g, h] := by
    simp [requested, hmandatory, Text.distinct, hids]
  have hranked : ranked [g, h] = [g, h] :=
    List.mergeSort_of_pairwise (by simp [hrank])
  rw [used, hrequested, hranked]
  simp [hids]

/-! ## Guides that exclude one another -/

/-- No guide excludes another one. -/
def Compatible (gs : List Guide) : Prop := ∀ g ∈ gs, ∀ h ∈ gs, g ≠ h → h.id ∉ g.excludes

/-- Guides of which none excludes an earlier one are compatible if none excludes a later one. -/
theorem compatible_of_pairwise {gs : List Guide} (hearlier : gs.Pairwise fun g h => g.id ∉ h.excludes)
    (hlater : gs.Pairwise fun g h => h.id ∉ g.excludes) : Compatible gs := by
  have hforward : gs.Pairwise fun g h => g ≠ h → h.id ∉ g.excludes := by
    refine hlater.imp ?_
    exact fun hexcludes _ => hexcludes
  have hbackward : gs.Pairwise (flip fun g h : Guide => g ≠ h → h.id ∉ g.excludes) := by
    refine hearlier.imp ?_
    exact fun hexcludes _ => hexcludes
  have hboth := hforward.forall_of_forall_of_flip (fun _ _ hne => absurd rfl hne) hbackward
  exact fun g hg h hh => hboth hg hh

theorem compatible_used_iff :
    Compatible (used guides ids) ↔ (used guides ids).Pairwise fun g h => h.id ∉ g.excludes := by
  have hpairwise := pairwise_used guides ids
  constructor
  · intro hcompatible
    have hdistinct : (used guides ids).Nodup := .of_map Guide.id nodup_id_used
    exact hdistinct.imp_of_mem fun hg hh hne => hcompatible _ hg _ hh hne
  · exact compatible_of_pairwise (hpairwise.imp And.right)

/-- Guides that are used come in the order of their rank, and none excludes one of a higher rank. So
they do not exclude one another if and only if none excludes one that comes after it; that is so in
particular if of two guides that are asked for each excludes the other or none does. -/
theorem combine_compatible_iff (h : index m.disk m.workdir folder = .ok guides)
    (ids : List String) :
    (combine folder (Value.record [("ids", Value.texts ids)])).run m =
      (.ok (combineReply (used guides ids)), m) ∧
    (used guides ids).Pairwise (fun g h => outranks h g = false ∧ g.id ∉ h.excludes) ∧
    (Compatible (used guides ids) ↔
      (used guides ids).Pairwise fun g h => h.id ∉ g.excludes) ∧
    ((∀ g ∈ requested guides ids, ∀ h ∈ requested guides ids,
      h.id ∈ g.excludes → g.id ∈ h.excludes) → Compatible (used guides ids)) := by
  have hpairwise := pairwise_used guides ids
  refine ⟨run_combine_ids ids h, hpairwise, compatible_used_iff, fun hmutual => ?_⟩
  refine compatible_used_iff.mpr (hpairwise.imp_of_mem fun {g h} hg hh hpair hexcludes => ?_)
  have hback := hmutual g (mem_requested_of_mem_used hg) h (mem_requested_of_mem_used hh) hexcludes
  exact hpair.2 hback

/-- Of guides that exclude each other, the one of the higher rank is used. -/
theorem combine_compatible_iff_mutual :
    let m := pairMachine "---\npriority: 90\nexcludes: b\n---\nfirst" "---\nexcludes: a\n---\nsecond"
    let g : Guide := { plainGuide "a" "first" with priority := 90, excludes := ["b"] }
    (combine guidesFolder (Value.record [("ids", Value.texts ["a", "b"])])).run m =
      (.ok (combineReply [g]), m) ∧ Compatible [g] := by
  intro m g
  have hindex : index m.disk m.workdir guidesFolder =
      .ok [g, { plainGuide "b" "second" with excludes := ["a"] }] :=
    index_pair (by decide) (by decide +kernel) (by decide +kernel)
  obtain ⟨hrun, -, -, hmutual⟩ := combine_compatible_iff hindex ["a", "b"]
  have hused : used [g, { plainGuide "b" "second" with excludes := ["a"] }] ["a", "b"] = [g] :=
    (used_pair ⟨rfl, rfl⟩ ⟨rfl, rfl⟩ (by decide)).trans rfl
  rw [hused] at hrun hmutual
  exact ⟨hrun, hmutual (by decide)⟩

/-- A guide is used beside one of a higher rank that excludes it. -/
theorem combine_not_compatible :
    let m := pairMachine "---\npriority: 90\nexcludes: b\n---\nfirst" "second"
    ∃ g h : Guide, (combine guidesFolder (Value.record [("ids", Value.texts ["a", "b"])])).run m =
      (.ok (combineReply [g, h]), m) ∧ outranks g h = true ∧ ¬Compatible [g, h] := by
  intro m
  have hindex : index m.disk m.workdir guidesFolder =
      .ok [{ plainGuide "a" "first" with priority := 90, excludes := ["b"] },
        plainGuide "b" "second"] :=
    index_pair (by decide) (by decide +kernel) (by decide +kernel)
  have hrun := run_combine_ids ["a", "b"] hindex
  rw [used_pair ⟨rfl, rfl⟩ ⟨rfl, rfl⟩ (by decide)] at hrun
  refine ⟨_, _, hrun, by decide, fun hcompatible => ?_⟩
  exact hcompatible _ (.head _) _ (.tail _ (.head _)) (by decide) (.head _)

/-! ## Guides that require others -/

/-- All that guides require is among them. -/
def Complete (gs : List Guide) : Prop := ∀ g ∈ gs, ∀ id ∈ g.requires, id ∈ gs.map Guide.id

/-- All that a used guide requires has been asked for. -/
theorem exists_requested_of_requires {id : String} (hg : g ∈ used guides ids)
    (hid : id ∈ g.requires) : ∃ r ∈ requested guides ids, r.id = id :=
  List.mem_map.mp ((mem_used_iff.mp hg).2.required id hid)

/-- Of the guides that are asked for, one has an id. -/
theorem eq_of_id_eq (hg : g ∈ requested guides ids) (hh : h ∈ requested guides ids)
    (hid : g.id = h.id) : g = h :=
  List.inj_on_of_nodup_map nodup_id_requested hg hh hid

theorem complete_used_iff :
    Complete (used guides ids) ↔
      ∀ g ∈ used guides ids, ∀ r ∈ requested guides ids, r.id ∈ g.requires → Fits guides ids r := by
  constructor
  · intro hcomplete g hg r hr hrequires
    obtain ⟨r', hr', hid⟩ := List.mem_map.mp (hcomplete g hg r.id hrequires)
    obtain ⟨hrequested, hfits⟩ := mem_used_iff.mp hr'
    exact eq_of_id_eq hrequested hr hid ▸ hfits
  · intro hfits g hg id hid
    obtain ⟨r, hr, rfl⟩ := exists_requested_of_requires hg hid
    exact List.mem_map_of_mem (mem_used_iff.mpr ⟨hr, hfits g hg r hr hid⟩)

/-- All that used guides require has been asked for, and is used if it fits. So it is all used if and
only if each required guide requires only what has been asked for, and excludes none of the guides that
are used before it. -/
theorem combine_complete_iff (h : index m.disk m.workdir folder = .ok guides) (ids : List String) :
    (combine folder (Value.record [("ids", Value.texts ids)])).run m =
      (.ok (combineReply (used guides ids)), m) ∧
    (∀ g, g ∈ used guides ids ↔ g ∈ requested guides ids ∧ Fits guides ids g) ∧
    (∀ g ∈ used guides ids, ∀ id ∈ g.requires, ∃ r ∈ requested guides ids, r.id = id) ∧
    (Complete (used guides ids) ↔
      ∀ g ∈ used guides ids, ∀ r ∈ requested guides ids, r.id ∈ g.requires →
        Fits guides ids r) :=
  ⟨run_combine_ids ids h, fun _ => mem_used_iff,
    fun _ hg _ hid => exists_requested_of_requires hg hid, complete_used_iff⟩

/-- A guide that requires another one, which is used as well. -/
theorem combine_complete_iff_both :
    let m := pairMachine "---\nrequires: b\n---\nfirst" "second"
    let g : Guide := { plainGuide "a" "first" with requires := ["b"] }
    (combine guidesFolder (Value.record [("ids", Value.texts ["a", "b"])])).run m =
      (.ok (combineReply [g, plainGuide "b" "second"]), m) ∧
    Fits [g, plainGuide "b" "second"] ["a", "b"] g := by
  intro m g
  have hindex : index m.disk m.workdir guidesFolder = .ok [g, plainGuide "b" "second"] :=
    index_pair (by decide) (by decide +kernel) (by decide +kernel)
  obtain ⟨hrun, hmem, -, -⟩ := combine_complete_iff hindex ["a", "b"]
  have hused : used [g, plainGuide "b" "second"] ["a", "b"] = [g, plainGuide "b" "second"] :=
    (used_pair ⟨rfl, rfl⟩ ⟨rfl, rfl⟩ (by decide)).trans rfl
  rw [hused] at hrun
  have hg : g ∈ used [g, plainGuide "b" "second"] ["a", "b"] := by
    rw [hused]
    exact .head _
  exact ⟨hrun, ((hmem g).mp hg).2⟩

/-- A guide is used without the one that it requires, which has been asked for and left out. -/
theorem combine_not_complete :
    let m := pairMachine "---\nrequires: b\n---\nfirst" "---\nrequires: c\n---\nsecond"
    ∃ g : Guide, (combine guidesFolder (Value.record [("ids", Value.texts ["a", "b"])])).run m =
      (.ok (combineReply [g]), m) ∧ ¬Complete [g] := by
  intro m
  have hindex : index m.disk m.workdir guidesFolder =
      .ok [{ plainGuide "a" "first" with requires := ["b"] },
        { plainGuide "b" "second" with requires := ["c"] }] :=
    index_pair (by decide) (by decide +kernel) (by decide +kernel)
  have hrun := run_combine_ids ["a", "b"] hindex
  rw [used_pair ⟨rfl, rfl⟩ ⟨rfl, rfl⟩ (by decide)] at hrun
  refine ⟨_, hrun, fun hcomplete => ?_⟩
  have hmissing := hcomplete _ (.head _) "b" (.head _)
  exact absurd hmissing (by decide)

end GuestCode.Guides
