import GuestCode.Capability.Files
import GuestCode.Proofs.Text.Split
import Mathlib.Data.Option.Basic

/-!
# Resolved paths

A path of a snippet is kept if it says itself where it starts, and moved to the projects root
otherwise. A path in the projects folder of the host is always moved, also one that has been moved
to the root before: so a resolved path stays as it is only if the root and the projects folder are
apart, or the same.

## Main statements

* `Files.resolved_resolveUnder`: a path is kept or moved.
* `Files.resolve_resolve_iff`: which paths stay where they have been resolved to.
* `Files.resolve_hostPath_iff`: when a path of the host leads where the path from the root leads.
-/

namespace GuestCode.Files

variable {path folder other root rest gap host : List Char} {host? : Option (List Char)}

/-! ## Slashes -/

theorem forwardSlashes_append (before after : List Char) :
    forwardSlashes (before ++ after) = forwardSlashes before ++ forwardSlashes after :=
  List.map_append

theorem not_mem_forwardSlashes (path : List Char) : '\\' ∉ forwardSlashes path := by
  intro hmem
  obtain ⟨c, -, hc⟩ := List.mem_map.mp hmem
  split at hc
  · exact absurd hc (by decide)
  · next hother => exact hother (beq_iff_eq.mpr hc)

theorem forwardSlashes_eq_self (h : '\\' ∉ path) : forwardSlashes path = path := by
  refine (List.map_congr_left fun c hc => if_neg ?_).trans (List.map_id path)
  rintro heq
  exact h (beq_iff_eq.mp heq ▸ hc)

theorem forwardSlashes_eq_self_iff : forwardSlashes path = path ↔ '\\' ∉ path :=
  ⟨fun h => h ▸ not_mem_forwardSlashes path, forwardSlashes_eq_self⟩

theorem head?_forwardSlashes (h : path.head? = some '/') :
    (forwardSlashes path).head? = some '/' := by
  rw [forwardSlashes, List.head?_map, h]
  rfl

/-- Only slashes are dropped at the end. -/
theorem exists_append_withoutSlashes (path : List Char) :
    ∃ gap : List Char, (∀ c ∈ gap, c = '/') ∧ path = withoutSlashes path ++ gap := by
  obtain ⟨gap, hgap, hpath⟩ := Text.exists_append_dropEndWhile (· == '/') path
  exact ⟨gap, fun c hc => beq_iff_eq.mp (hgap c hc), hpath⟩

theorem withoutSlashes_append (h : ∀ c ∈ gap, c = '/') (path : List Char) :
    withoutSlashes (path ++ gap) = withoutSlashes path :=
  Text.dropEndWhile_append (fun c hc => beq_iff_eq.mpr (h c hc)) path

theorem withoutSlashes_withoutSlashes (path : List Char) :
    withoutSlashes (withoutSlashes path) = withoutSlashes path :=
  Text.dropEndWhile_dropEndWhile _ path

theorem withoutSlashes_concat {c : Char} (h : c ≠ '/') (path : List Char) :
    withoutSlashes (path ++ [c]) = path ++ [c] := by
  refine Text.dropEndWhile_append_cons ?_ path []
  exact beq_eq_false_iff_ne.mpr h

theorem withoutSlashes_eq_self_iff : withoutSlashes path = path ↔ path.getLast? ≠ some '/' := by
  rcases List.eq_nil_or_concat path with rfl | ⟨front, last, rfl⟩
  · exact iff_of_true rfl (by simp)
  rw [List.concat_eq_append, List.getLast?_concat]
  by_cases hlast : last = '/'
  · refine iff_of_false (fun heq => ?_) (by simpa using hlast)
    obtain ⟨gap, -, hfront⟩ := exists_append_withoutSlashes front
    rw [hlast, withoutSlashes_append (by simp)] at heq
    have hlength := congrArg List.length hfront
    rw [heq] at hlength
    simp only [List.length_append, List.length_singleton] at hlength
    omega
  · exact iff_of_true (withoutSlashes_concat hlast front) (by simpa using hlast)

theorem withoutSlashes_eq_nil_iff : withoutSlashes path = [] ↔ ∀ c ∈ path, c = '/' := by
  constructor
  · intro h
    obtain ⟨gap, hgap, hpath⟩ := exists_append_withoutSlashes path
    rw [h, List.nil_append] at hpath
    exact hpath ▸ hgap
  · exact fun h => withoutSlashes_append h []

/-! ## Folders -/

/-- A path leads to a folder, or to something in it. -/
def LiesIn (folder path : List Char) : Prop := path = folder ∨ folder ++ ['/'] <+: path

/-- Of two folders one lies in the other. -/
def Overlap (folder other : List Char) : Prop := LiesIn folder other ∨ LiesIn other folder

instance (folder path : List Char) : Decidable (LiesIn folder path) :=
  inferInstanceAs (Decidable (_ ∨ _))

instance (folder other : List Char) : Decidable (Overlap folder other) :=
  inferInstanceAs (Decidable (_ ∨ _))

/-- Behind the folder there is nothing, or a slash follows. -/
theorem liesIn_iff :
    LiesIn folder path ↔ ∃ rest, path = folder ++ rest ∧ ∀ c ∈ rest.head?, c = '/' := by
  constructor
  · rintro (rfl | ⟨rest, rfl⟩)
    · exact ⟨[], by simp, by simp⟩
    · exact ⟨'/' :: rest, by simp, by simp⟩
  · rintro ⟨rest, rfl, hrest⟩
    cases rest with
    | nil => exact .inl (List.append_nil folder)
    | cons c rest =>
      obtain rfl := hrest c rfl
      exact .inr ⟨rest, by simp⟩

theorem LiesIn.append (h : LiesIn folder path) (hrest : ∀ c ∈ rest.head?, c = '/') :
    LiesIn folder (path ++ rest) := by
  obtain ⟨inner, rfl, hinner⟩ := liesIn_iff.mp h
  refine liesIn_iff.mpr ⟨inner ++ rest, List.append_assoc _ _ _, fun c hc => ?_⟩
  cases inner with
  | nil => exact hrest c hc
  | cons d inner => exact hinner c hc

/-- Two folders in which the same path lies. -/
theorem LiesIn.overlap (h : LiesIn folder path) (h' : LiesIn other path) :
    Overlap folder other := by
  obtain ⟨rest, rfl, hrest⟩ := liesIn_iff.mp h
  obtain ⟨rest', heq, hrest'⟩ := liesIn_iff.mp h'
  -- The longer of the two goes on from the shorter one with what follows that in the path.
  rcases List.append_eq_append_iff.mp heq with ⟨between, rfl, rfl⟩ | ⟨between, rfl, rfl⟩
  · refine .inl (liesIn_iff.mpr ⟨between, rfl, fun c hc => hrest c ?_⟩)
    rw [List.head?_append, hc]
    rfl
  · refine .inr (liesIn_iff.mpr ⟨between, rfl, fun c hc => hrest' c ?_⟩)
    rw [List.head?_append, hc]
    rfl

/-- The projects folder of the host as paths are compared with it. -/
def hostFolder (host : List Char) : List Char := withoutSlashes (forwardSlashes host)

theorem not_mem_hostFolder (host : List Char) : '\\' ∉ hostFolder host := by
  obtain ⟨gap, -, heq⟩ := exists_append_withoutSlashes (forwardSlashes host)
  intro hmem
  refine not_mem_forwardSlashes host ?_
  rw [heq]
  exact List.mem_append_left gap hmem

theorem withoutSlashes_hostFolder (host : List Char) :
    withoutSlashes (hostFolder host) = hostFolder host :=
  withoutSlashes_withoutSlashes _

theorem head?_hostFolder (h : host.head? = some '/') :
    ∀ c ∈ (hostFolder host).head?, c = '/' := by
  obtain ⟨gap, -, heq⟩ := exists_append_withoutSlashes (forwardSlashes host)
  have hhead := head?_forwardSlashes h
  intro c hc
  rw [heq, List.head?_append, show (withoutSlashes (forwardSlashes host)).head? = some c from hc]
    at hhead
  exact Option.some.inj hhead

/-! ## The ways of a path -/

/-- A path says itself where it starts. -/
def IsRooted (path : List Char) : Prop := path.head? = some '/' ∨ hasDrive path = true

/-- A relative path without a point for the folder that it starts from. -/
def fromRoot (path : List Char) : List Char :=
  if "./".toList.isPrefixOf path then path.drop 2 else path

theorem liesIn_iff_tested :
    (path == folder || (folder ++ ['/']).isPrefixOf path) = true ↔ LiesIn folder path := by
  simp [LiesIn]

theorem translate?_append (hrest : ∀ c ∈ rest.head?, c = '/') (root host : List Char) :
    translate? root host (hostFolder host ++ rest) = some (root ++ rest) := by
  have hin : LiesIn (hostFolder host) (hostFolder host ++ rest) :=
    liesIn_iff.mpr ⟨rest, rfl, hrest⟩
  unfold translate?
  dsimp only
  rw [← hostFolder, if_pos (liesIn_iff_tested.mpr hin), List.drop_left]

theorem translate?_eq_none (h : ¬LiesIn (hostFolder host) path) (root : List Char) :
    translate? root host path = none := by
  unfold translate?
  dsimp only
  rw [← hostFolder, if_neg (mt liesIn_iff_tested.mp h)]

/-- A path in the projects folder of the host is moved to the root. -/
theorem resolveUnder_append (hhost : host ∈ host?) (hrest : ∀ c ∈ rest.head?, c = '/')
    (hpath : forwardSlashes path = hostFolder host ++ rest) :
    resolveUnder root host? path = root ++ rest := by
  obtain rfl := hhost
  unfold resolveUnder
  dsimp only [Option.bind_some]
  rw [hpath, translate?_append hrest]

section Outside

variable (hout : ∀ host ∈ host?, ¬LiesIn (hostFolder host) (forwardSlashes path))

include hout

theorem bind_translate?_eq_none (root : List Char) :
    (host?.bind fun host => translate? root host (forwardSlashes path)) = none := by
  cases host? with
  | none => rfl
  | some host => exact translate?_eq_none (hout host rfl) root

/-- Another path that says where it starts is kept. -/
theorem resolveUnder_of_isRooted (h : IsRooted (forwardSlashes path)) :
    resolveUnder root host? path = forwardSlashes path := by
  unfold resolveUnder
  dsimp only
  rw [bind_translate?_eq_none hout, if_pos]
  simpa [IsRooted] using h

/-- Any other path starts from the root. -/
theorem resolveUnder_of_not_isRooted (h : ¬IsRooted (forwardSlashes path)) :
    resolveUnder root host? path =
      withoutSlashes root ++ '/' :: fromRoot (forwardSlashes path) := by
  unfold resolveUnder
  dsimp only
  rw [bind_translate?_eq_none hout, if_neg]
  · rfl
  · simpa [IsRooted] using h

end Outside

/-- A projects root as it is kept: it starts with a slash, and ends with one only if it is the root
of the disk. -/
structure IsRoot (root : List Char) : Prop where
  starts : root.head? = some '/'
  ends : root = ['/'] ∨ withoutSlashes root = root

/-- What paths are resolved to. -/
inductive Resolved (root : List Char) (host? : Option (List Char)) : List Char → Prop where
  /-- The path has been kept. -/
  | kept {path : List Char} (rooted : IsRooted path) (plain : '\\' ∉ path)
      (outside : ∀ host ∈ host?, ¬LiesIn (hostFolder host) path) : Resolved root host? path
  /-- The path has been moved to the root. -/
  | moved {path rest : List Char} (eq : path = withoutSlashes root ++ rest) (plain : '\\' ∉ rest)
      (below : ∀ c ∈ rest.head?, c = '/') (starts : path.head? = some '/') :
      Resolved root host? path

theorem IsRoot.moved (hroot : IsRoot root) (hrest : ∀ c ∈ rest.head?, c = '/')
    (hplain : '\\' ∉ rest) : Resolved root host? (root ++ rest) := by
  have hstarts : (root ++ rest).head? = some '/' := by
    rw [List.head?_append, hroot.starts]
    rfl
  rcases hroot.ends with rfl | hends
  · have hplain' : '\\' ∉ '/' :: rest := by simpa using hplain
    exact .moved rfl hplain' (by simp) hstarts
  · exact .moved (by rw [hends]) hplain hrest hstarts

theorem IsRoot.moved_cons (hroot : IsRoot root) (hplain : '\\' ∉ rest) :
    Resolved root host? (withoutSlashes root ++ '/' :: rest) := by
  refine .moved rfl (by simpa using hplain) (by simp) ?_
  rcases hroot.ends with rfl | hends
  · rfl
  · rw [hends, List.head?_append, hroot.starts]
    rfl

/-- A path is kept or moved. -/
theorem resolved_resolveUnder (hroot : IsRoot root) (path : List Char) :
    Resolved root host? (resolveUnder root host? path) := by
  have hplain := not_mem_forwardSlashes path
  by_cases hout : ∀ host ∈ host?, ¬LiesIn (hostFolder host) (forwardSlashes path)
  · by_cases hrooted : IsRooted (forwardSlashes path)
    · rw [resolveUnder_of_isRooted hout hrooted]
      exact .kept hrooted hplain hout
    · rw [resolveUnder_of_not_isRooted hout hrooted]
      refine hroot.moved_cons fun hmem => hplain ?_
      rw [fromRoot] at hmem
      split at hmem
      · exact List.mem_of_mem_drop hmem
      · exact hmem
  · obtain ⟨host, hhost, hin⟩ : ∃ host ∈ host?, LiesIn (hostFolder host) (forwardSlashes path) := by
      simpa using hout
    obtain ⟨rest, hpath, hrest⟩ := liesIn_iff.mp hin
    rw [resolveUnder_append hhost hrest hpath]
    exact hroot.moved hrest fun hmem => hplain (hpath ▸ List.mem_append_right _ hmem)

/-! ## Resolving again -/

/-- What has been moved starts with the root, whether it ends with a slash or not. -/
theorem IsRoot.exists_append (hroot : IsRoot root) (hpath : path = withoutSlashes root ++ rest)
    (hplain : '\\' ∉ rest) (hstarts : path.head? = some '/') :
    ∃ rest', path = root ++ rest' ∧ '\\' ∉ rest' := by
  rcases hroot.ends with rfl | hends
  · obtain ⟨tail, rfl⟩ := List.head?_eq_some_iff.mp hstarts
    obtain rfl : rest = '/' :: tail := hpath.symm
    exact ⟨tail, rfl, fun hmem => hplain (List.mem_cons_of_mem _ hmem)⟩
  · exact ⟨rest, by rw [hpath, hends], hplain⟩

/-- What has been moved to a root that is the projects folder of the host lies in that. -/
theorem IsRoot.liesIn_of_same (hroot : IsRoot root) (hsame : hostFolder host = forwardSlashes root)
    (hpath : path = withoutSlashes root ++ rest) (hplain : '\\' ∉ rest)
    (hbelow : ∀ c ∈ rest.head?, c = '/') : LiesIn (hostFolder host) (forwardSlashes path) := by
  rcases hroot.ends with rfl | hends
  · -- The projects folder is kept without a slash at its end.
    have hslash := withoutSlashes_hostFolder host
    rw [hsame] at hslash
    exact absurd hslash (by decide)
  · refine liesIn_iff.mpr ⟨rest, ?_, hbelow⟩
    rw [hpath, hends, forwardSlashes_append, forwardSlashes_eq_self hplain, hsame]

/-- A resolved path stays as it is if it holds no backslash and lies outside the projects folder of
the host, or if that is the root. -/
theorem Resolved.resolveUnder_eq_iff (hroot : IsRoot root) (h : Resolved root host? path) :
    resolveUnder root host? path = path ↔
      (∃ host ∈ host?, hostFolder host = forwardSlashes root) ∨
        '\\' ∉ path ∧ ∀ host ∈ host?, ¬LiesIn (hostFolder host) path := by
  cases h with
  | kept hrooted hplain hout =>
    have hsame := forwardSlashes_eq_self hplain
    rw [resolveUnder_of_isRooted (by rwa [hsame]) (by rwa [hsame]), hsame]
    exact iff_of_true rfl (.inr ⟨hplain, hout⟩)
  | @moved rest hpath hplain hbelow hstarts =>
    by_cases hout : ∀ host ∈ host?, ¬LiesIn (hostFolder host) (forwardSlashes path)
    · rw [resolveUnder_of_isRooted hout (.inl (head?_forwardSlashes hstarts)),
        forwardSlashes_eq_self_iff]
      constructor
      · intro hpath
        rw [forwardSlashes_eq_self hpath] at hout
        exact .inr ⟨hpath, hout⟩
      · rintro (⟨host, hhost, hsame⟩ | ⟨hpath, -⟩)
        · exact absurd (hroot.liesIn_of_same hsame hpath hplain hbelow) (hout host hhost)
        · exact hpath
    · obtain ⟨host, hhost, hin⟩ :
          ∃ host ∈ host?, LiesIn (hostFolder host) (forwardSlashes path) := by
        simpa using hout
      obtain ⟨inner, hinner, hslash⟩ := liesIn_iff.mp hin
      obtain ⟨rest', rfl, hplain'⟩ := hroot.exists_append hpath hplain hstarts
      rw [resolveUnder_append hhost hslash hinner, List.append_cancel_left_eq]
      rw [forwardSlashes_append, forwardSlashes_eq_self hplain'] at hinner
      constructor
      · rintro rfl
        exact .inl ⟨host, hhost, (List.append_cancel_right hinner).symm⟩
      · rintro (⟨host', hhost', hsame⟩ | ⟨hpath', hout'⟩)
        · obtain rfl := Option.mem_unique hhost hhost'
          rw [hsame] at hinner
          exact (List.append_cancel_left hinner).symm
        · rw [forwardSlashes_eq_self hpath'] at hin
          exact absurd hin (hout' host hhost)

/-- A path that starts with a point goes down from the root. -/
theorem resolveUnder_point (hhost : ∀ host ∈ host?, host.head? = some '/') (hplain : '\\' ∉ rest) :
    resolveUnder root host? ('.' :: '/' :: rest) = withoutSlashes root ++ '/' :: rest := by
  have hsame : forwardSlashes ('.' :: '/' :: rest) = '.' :: '/' :: rest :=
    forwardSlashes_eq_self (by simpa using hplain)
  have hout : ∀ host ∈ host?, ¬LiesIn (hostFolder host) (forwardSlashes ('.' :: '/' :: rest)) := by
    intro host hmem hin
    obtain ⟨inner, hinner, hslash⟩ := liesIn_iff.mp hin
    rw [hsame] at hinner
    have hstarts := head?_hostFolder (hhost host hmem)
    cases hfolder : hostFolder host with
    | nil =>
      rw [hfolder, List.nil_append] at hinner
      exact absurd (hslash '.' (by rw [← hinner]; rfl)) (by decide)
    | cons c folder =>
      rw [hfolder, List.cons_append] at hinner
      exact absurd (hstarts '.' (by rw [hfolder, (List.cons.inj hinner).1]; rfl)) (by decide)
  rw [resolveUnder_of_not_isRooted hout, hsame]
  · rfl
  · rw [hsame]
    rintro (hhead | hdrive)
    · exact absurd (Option.some.inj hhead) (by decide)
    · cases hdrive

/-- All resolved paths stay as they are exactly if the root holds no backslash and does not overlap
with the projects folder of the host, or if that is the root. -/
theorem forall_resolveUnder_eq_iff (hroot : IsRoot root)
    (hhost : ∀ host ∈ host?, host.head? = some '/') :
    (∀ path ≠ [], resolveUnder root host? (resolveUnder root host? path) =
        resolveUnder root host? path) ↔
      (∃ host ∈ host?, hostFolder host = forwardSlashes root) ∨
        '\\' ∉ withoutSlashes root ∧
          ∀ host ∈ host?, ¬Overlap (hostFolder host) (withoutSlashes root) := by
  constructor
  · intro h
    by_cases hsame : ∃ host ∈ host?, hostFolder host = forwardSlashes root
    · exact .inl hsame
    -- Everything below the root is what some path is resolved to.
    have hbelow : ∀ rest : List Char, '\\' ∉ rest → '\\' ∉ withoutSlashes root ++ '/' :: rest ∧
        ∀ host ∈ host?, ¬LiesIn (hostFolder host) (withoutSlashes root ++ '/' :: rest) := by
      intro rest hplain
      have hpath := h ('.' :: '/' :: rest) (by simp)
      rw [resolveUnder_point hhost hplain,
        (hroot.moved_cons hplain).resolveUnder_eq_iff hroot] at hpath
      exact hpath.resolve_left hsame
    refine .inr ⟨fun hmem => ?_, fun host hmem hoverlap => ?_⟩
    · exact (hbelow [] (by simp)).1 (List.mem_append_left _ hmem)
    · rcases hoverlap with hin | hin
      · exact (hbelow [] (by simp)).2 host hmem (hin.append (by simp))
      · obtain ⟨rest, hfolder, hrest⟩ := liesIn_iff.mp hin
        have hplain : '\\' ∉ rest := fun hback =>
          not_mem_hostFolder host (hfolder ▸ List.mem_append_right _ hback)
        cases rest with
        | nil =>
          refine (hbelow [] (by simp)).2 host hmem (LiesIn.append (.inl ?_) (by simp))
          rw [hfolder, List.append_nil]
        | cons c rest =>
          obtain rfl := hrest c rfl
          refine (hbelow rest ?_).2 host hmem (.inl hfolder.symm)
          exact fun hback => hplain (List.mem_cons_of_mem _ hback)
  · intro h path _
    have hresolved : Resolved root host? (resolveUnder root host? path) :=
      resolved_resolveUnder hroot path
    rw [hresolved.resolveUnder_eq_iff hroot]
    refine h.imp_right fun ⟨hplain, hapart⟩ => ?_
    cases hresolved with
    | kept _ hpath hout => exact ⟨hpath, hout⟩
    | moved heq hrest hbelow _ =>
      refine ⟨?_, fun host hmem hin => hapart host hmem (hin.overlap ?_)⟩
      · rw [heq]
        exact List.not_mem_append hplain hrest
      · exact liesIn_iff.mpr ⟨_, heq, hbelow⟩

/-! ## Scopes -/

/-- The scope of a projects root, and of the projects folder of the host if one is given. -/
def scopeOf (root : String) (host? : Option String) : Scope := .ofRoot root (host?.elim .null .text)

section Scopes

variable {root : String} {host? : Option String}

theorem toList_root_scopeOf (root : String) (host? : Option String) :
    (scopeOf root host?).root.toList =
      if withoutSlashes root.toList = [] then ['/'] else withoutSlashes root.toList := by
  by_cases h : withoutSlashes root.toList = []
  · simp [scopeOf, Scope.ofRoot, h]
  · simp [scopeOf, Scope.ofRoot, h]

theorem withoutSlashes_scopeOf (root : String) (host? : Option String) :
    withoutSlashes (scopeOf root host?).root.toList = withoutSlashes root.toList := by
  rw [toList_root_scopeOf]
  split
  · next hnil => rw [hnil, withoutSlashes_eq_nil_iff.mpr (by simp)]
  · exact withoutSlashes_withoutSlashes _

theorem isRoot_scopeOf (hroot : root.toList.head? = some '/') :
    IsRoot (scopeOf root host?).root.toList := by
  rw [toList_root_scopeOf]
  split
  · exact ⟨rfl, .inl rfl⟩
  · next hne =>
    refine ⟨?_, .inr (withoutSlashes_withoutSlashes _)⟩
    obtain ⟨gap, -, heq⟩ := exists_append_withoutSlashes root.toList
    obtain ⟨c, front, hfront⟩ := List.exists_cons_of_ne_nil hne
    rw [heq, hfront] at hroot
    rw [hfront]
    exact hroot

/-- In such a scope every path can be resolved. -/
theorem resolve_scopeOf (hhost : ∀ host ∈ host?, host.toList.head? = some '/') (path : String) :
    resolve (scopeOf root host?) path = .ok (String.ofList
      (resolveUnder (scopeOf root host?).root.toList (host?.map String.toList) path.toList)) := by
  cases host? with
  | none => rfl
  | some host =>
    have hne : host ≠ "" := by
      rintro rfl
      cases hhost "" rfl
    have htruthy : (Value.text host).isTruthy = true := by simpa [Value.isTruthy] using hne
    unfold resolve
    rw [show (scopeOf root (some host)).hostPath = .text host from rfl, if_pos htruthy]
    simp [textOfPath, bind, Except.bind, pure, Except.pure, hne]

end Scopes

/-- A resolved path stays as it is exactly if it holds no backslash and lies outside the projects
folder of the host, or if the root is that folder. So all of them do exactly if the root holds no
backslash and does not overlap with that folder, or is that folder. -/
theorem resolve_resolve_iff {root : String} {host? : Option String}
    (hroot : root.toList.head? = some '/')
    (hhost : ∀ host ∈ host?, host.toList.head? = some '/') :
    (∀ path, ∃ target again, resolve (scopeOf root host?) path = .ok target ∧
      resolve (scopeOf root host?) target = .ok again ∧
      (again = target ↔
        (∃ host ∈ host?,
          hostFolder host.toList = forwardSlashes (scopeOf root host?).root.toList) ∨
        '\\' ∉ target.toList ∧ ∀ host ∈ host?, ¬LiesIn (hostFolder host.toList) target.toList)) ∧
    ((∀ path ≠ "", (resolve (scopeOf root host?) path).bind (resolve (scopeOf root host?)) =
        resolve (scopeOf root host?) path) ↔
      (∃ host ∈ host?,
        hostFolder host.toList = forwardSlashes (scopeOf root host?).root.toList) ∨
      '\\' ∉ withoutSlashes root.toList ∧
        ∀ host ∈ host?, ¬Overlap (hostFolder host.toList) (withoutSlashes root.toList)) := by
  have hscope : IsRoot (scopeOf root host?).root.toList := isRoot_scopeOf hroot
  have hresolve : ∀ path, resolve (scopeOf root host?) path = .ok (String.ofList
      (resolveUnder (scopeOf root host?).root.toList (host?.map String.toList) path.toList)) :=
    resolve_scopeOf hhost
  have hhost' : ∀ host ∈ host?.map String.toList, host.head? = some '/' := by simpa using hhost
  constructor
  · intro path
    have hresolved : Resolved _ (host?.map String.toList) _ :=
      resolved_resolveUnder hscope path.toList
    refine ⟨_, _, hresolve path, hresolve _, ?_⟩
    rw [String.ofList_inj, String.toList_ofList, hresolved.resolveUnder_eq_iff hscope]
    simp
  · have hall := forall_resolveUnder_eq_iff hscope hhost'
    rw [withoutSlashes_scopeOf] at hall
    rw [Option.exists_mem_map, Option.forall_mem_map] at hall
    rw [← hall]
    constructor
    · intro h path hne
      have hpath := h (String.ofList path) (by simpa using hne)
      rw [hresolve, Except.bind, hresolve] at hpath
      simpa [String.ofList_inj] using hpath
    · intro h path hne
      rw [hresolve, Except.bind, hresolve, String.toList_ofList, h path.toList (by simpa using hne)]

theorem resolve_resolve_projects :
    (∀ path ≠ "", (resolve (scopeOf "/projects/" (some "/home/dev/code")) path).bind
        (resolve (scopeOf "/projects/" (some "/home/dev/code"))) =
      resolve (scopeOf "/projects/" (some "/home/dev/code")) path) ∧
    resolve (scopeOf "/projects/" (some "/home/dev/code")) "/home/dev/code/a.txt" =
      .ok "/projects/a.txt" :=
  ⟨(resolve_resolve_iff (by decide) (by simp)).2.mpr (.inr (by decide)), rfl⟩

/-- A root in the projects folder of the host: what has been moved to it is moved again. -/
theorem resolve_resolve_moves :
    resolve (scopeOf "/home/dev/code" (some "/home/dev")) "a.txt" = .ok "/home/dev/code/a.txt" ∧
    resolve (scopeOf "/home/dev/code" (some "/home/dev")) "/home/dev/code/a.txt" =
      .ok "/home/dev/code/code/a.txt" :=
  ⟨rfl, rfl⟩

/-! ## Paths of the host -/

/-- A relative path, which does not start with a point for the folder that it starts from. -/
structure IsRelative (path : List Char) : Prop where
  nonempty : path ≠ []
  notRooted : ¬IsRooted (forwardSlashes path)
  notPointed : ¬['.', '/'] <+: forwardSlashes path

instance (path : List Char) : Decidable (IsRooted path) :=
  inferInstanceAs (Decidable (_ ∨ _))

instance (path : List Char) : Decidable (IsRelative path) :=
  decidable_of_iff (path ≠ [] ∧ ¬IsRooted (forwardSlashes path) ∧
      ¬['.', '/'] <+: forwardSlashes path)
    ⟨fun h => ⟨h.1, h.2.1, h.2.2⟩, fun h => ⟨h.nonempty, h.notRooted, h.notPointed⟩⟩

/-- No relative path lies in a folder that a path from the root of the disk leads to. -/
theorem IsRelative.not_liesIn (h : IsRelative path) (hhost : host.head? = some '/')
    (hne : hostFolder host ≠ []) : ¬LiesIn (hostFolder host) (forwardSlashes path) := by
  intro hin
  obtain ⟨rest, heq, -⟩ := liesIn_iff.mp hin
  obtain ⟨c, folder, hfolder⟩ := List.exists_cons_of_ne_nil hne
  obtain rfl := head?_hostFolder hhost c (by rw [hfolder]; rfl)
  exact h.notRooted (.inl (by rw [heq, hfolder]; rfl))

theorem IsRelative.resolveUnder_eq (h : IsRelative path)
    (hout : ∀ host ∈ host?, ¬LiesIn (hostFolder host) (forwardSlashes path)) :
    resolveUnder root host? path = withoutSlashes root ++ '/' :: forwardSlashes path := by
  have hpoint : fromRoot (forwardSlashes path) = forwardSlashes path :=
    if_neg (mt List.isPrefixOf_iff_prefix.mp h.notPointed)
  rw [resolveUnder_of_not_isRooted hout h.notRooted, hpoint]

theorem hostFolder_eq_nil_iff : hostFolder host = [] ↔ ∀ c ∈ host, c = '/' ∨ c = '\\' := by
  rw [hostFolder, withoutSlashes_eq_nil_iff, forwardSlashes, List.forall_mem_map]
  refine forall₂_congr fun c _ => ?_
  by_cases hc : c = '\\'
  · simp [hc]
  · simp [hc]

theorem hostFolder_withoutSlashes (host : List Char) :
    hostFolder (withoutSlashes host) = hostFolder host := by
  obtain ⟨gap, hgap, hhost⟩ := exists_append_withoutSlashes host
  have hplain : '\\' ∉ gap := fun hmem => absurd (hgap _ hmem) (by decide)
  calc hostFolder (withoutSlashes host)
      = withoutSlashes (forwardSlashes (withoutSlashes host) ++ gap) :=
        (withoutSlashes_append hgap _).symm
    _ = hostFolder (withoutSlashes host ++ gap) := by
        rw [hostFolder, forwardSlashes_append, forwardSlashes_eq_self hplain]
    _ = hostFolder host := congrArg hostFolder hhost.symm

/-- Backslashes at the end of the projects folder are not dropped with the slashes there, and are
slashes when paths are compared. -/
theorem exists_gap (host : List Char) :
    ∃ gap : List Char, forwardSlashes (withoutSlashes host) = hostFolder host ++ gap ∧
      (∀ c ∈ gap, c = '/') ∧ (gap = [] ↔ (withoutSlashes host).getLast? ≠ some '\\') := by
  obtain ⟨gap, hgap, heq⟩ := exists_append_withoutSlashes (forwardSlashes (withoutSlashes host))
  have hfolder : withoutSlashes (forwardSlashes (withoutSlashes host)) = hostFolder host :=
    hostFolder_withoutSlashes host
  have hlast : (withoutSlashes host).getLast? ≠ some '/' :=
    withoutSlashes_eq_self_iff.mp (withoutSlashes_withoutSlashes host)
  rw [hfolder] at heq
  refine ⟨gap, heq, hgap, ?_⟩
  calc gap = [] ↔ withoutSlashes (forwardSlashes (withoutSlashes host)) =
          forwardSlashes (withoutSlashes host) := by
        rw [hfolder, heq, List.self_eq_append_right]
    _ ↔ (forwardSlashes (withoutSlashes host)).getLast? ≠ some '/' := withoutSlashes_eq_self_iff
    _ ↔ (withoutSlashes host).getLast? ≠ some '\\' := by
        rw [forwardSlashes, List.getLast?_map]
        cases h : (withoutSlashes host).getLast? with
        | none => simp
        | some c =>
          have hc : c ≠ '/' := fun heq => hlast (h.trans (congrArg some heq))
          by_cases hback : c = '\\' <;> simp [hback, hc]

theorem resolveUnder_hostPath (path : List Char) :
    ∃ gap : List Char, (∀ c ∈ gap, c = '/') ∧
      (gap = [] ↔ (withoutSlashes host).getLast? ≠ some '\\') ∧
      resolveUnder root (some host) (withoutSlashes host ++ '/' :: path) =
        root ++ (gap ++ '/' :: forwardSlashes path) := by
  obtain ⟨gap, heq, hgap, hnil⟩ := exists_gap host
  refine ⟨gap, hgap, hnil, resolveUnder_append rfl ?_ ?_⟩
  · intro c hc
    cases gap with
    | nil => exact (Option.some.inj hc).symm
    | cons d gap =>
      obtain rfl := Option.some.inj hc
      exact hgap _ List.mem_cons_self
  · rw [forwardSlashes_append, heq, List.append_assoc]
    rfl

/-- A path of the host leads where the path from the root leads, unless the root is the root of the
disk or the projects folder of the host ends with a backslash. A path that only starts like that
folder is kept. -/
theorem resolve_hostPath_iff {root host : String} (hhost : host.toList.head? = some '/')
    (hnamed : ∃ c ∈ host.toList, c ≠ '/' ∧ c ≠ '\\') :
    (∀ path : String, IsRelative path.toList → ∃ translated target,
      resolve (scopeOf root (some host))
          (String.ofList (withoutSlashes host.toList) ++ "/" ++ path) = .ok translated ∧
        resolve (scopeOf root (some host)) path = .ok target ∧
        (translated = target ↔ (∃ c ∈ root.toList, c ≠ '/') ∧
          (withoutSlashes host.toList).getLast? ≠ some '\\')) ∧
    ∀ path : String, hostFolder host.toList <+: forwardSlashes path.toList →
      ¬LiesIn (hostFolder host.toList) (forwardSlashes path.toList) →
      resolve (scopeOf root (some host)) path =
        .ok (String.ofList (forwardSlashes path.toList)) := by
  have hne : hostFolder host.toList ≠ [] := by
    rw [Ne, hostFolder_eq_nil_iff]
    simpa using hnamed
  have hresolve : ∀ path, resolve (scopeOf root (some host)) path = .ok (String.ofList
      (resolveUnder (scopeOf root (some host)).root.toList (some host.toList) path.toList)) :=
    resolve_scopeOf (by simpa using hhost)
  constructor
  · intro path hpath
    have htext : (String.ofList (withoutSlashes host.toList) ++ "/" ++ path).toList =
        withoutSlashes host.toList ++ '/' :: path.toList := by
      simp
    obtain ⟨gap, -, hnil, htranslated⟩ :=
      @resolveUnder_hostPath (scopeOf root (some host)).root.toList host.toList path.toList
    have hout : ∀ folder ∈ some host.toList,
        ¬LiesIn (hostFolder folder) (forwardSlashes path.toList) := by
      simpa using hpath.not_liesIn hhost hne
    refine ⟨_, _, hresolve _, hresolve path, ?_⟩
    rw [htext, htranslated, hpath.resolveUnder_eq hout, String.ofList_inj, ← hnil,
      withoutSlashes_scopeOf, toList_root_scopeOf]
    split
    · next hslashes =>
      rw [hslashes]
      refine iff_of_false (fun heq => ?_) fun h => ?_
      · have hlength := congrArg List.length heq
        simp only [List.length_append, List.length_cons, List.length_nil] at hlength
        omega
      · obtain ⟨c, hc, hother⟩ := h.1
        exact hother (withoutSlashes_eq_nil_iff.mp hslashes c hc)
    · next hslashes =>
      rw [List.append_cancel_left_eq, List.append_left_eq_self]
      refine (and_iff_right ?_).symm
      simpa using mt withoutSlashes_eq_nil_iff.mpr hslashes
  · intro path hprefix hout
    obtain ⟨c, folder, hfolder⟩ := List.exists_cons_of_ne_nil hne
    obtain ⟨rest, hpath⟩ := hprefix
    have hrooted : IsRooted (forwardSlashes path.toList) := by
      obtain rfl := head?_hostFolder hhost c (by rw [hfolder]; rfl)
      exact .inl (by rw [← hpath, hfolder]; rfl)
    rw [hresolve, resolveUnder_of_isRooted (by simpa using hout) hrooted]

theorem resolve_hostPath_code :
    resolve (scopeOf "/projects" (some "/home/dev/code/")) "/home/dev/code/app/main.ts" =
      resolve (scopeOf "/projects" (some "/home/dev/code/")) "app/main.ts" ∧
    resolve (scopeOf "/projects" (some "/home/dev/code/")) "/home/dev/codex/main.ts" =
      .ok "/home/dev/codex/main.ts" := by
  have hpaths := @resolve_hostPath_iff "/projects" "/home/dev/code/" (by decide)
    ⟨'h', by decide, by decide⟩
  constructor
  · obtain ⟨translated, target, htranslated, htarget, hsame⟩ := hpaths.1 "app/main.ts" (by decide)
    rw [htarget, ← hsame.mpr ⟨⟨'p', by decide, by decide⟩, by decide⟩]
    exact htranslated
  · exact hpaths.2 "/home/dev/codex/main.ts" (by decide) (by decide)

/-- With the root of the disk as the projects root a path of the host gets one slash more. -/
theorem resolve_hostPath_slash :
    resolve (scopeOf "/" (some "/home/dev")) "/home/dev/a.txt" = .ok "//a.txt" ∧
    resolve (scopeOf "/" (some "/home/dev")) "a.txt" = .ok "/a.txt" :=
  ⟨rfl, rfl⟩

end GuestCode.Files
