import GuestCode.Execution.Engine
import GuestCode.Proofs.Data.Outcome
import GuestCode.Proofs.Disk.Files
import GuestCode.Proofs.Execution.Replies
import Mathlib.Order.Defs.Unbundled

/-!
# What capabilities change

The methods that look at files leave the machine as it is, and those that write files change the
disk and nothing else: what they leave is a disk that has grown. So a snippet that has only the
standard capabilities can neither start programs nor write to the ones that run.

## Main statements

* `Action.Keeps.bind`: what each step of an operation keeps is kept by the operation.
* `BindingTable.keeps_of_standardBindings`: the standard capabilities make the disk grow, and do
  nothing else.
* `Engine.obliging_of_make`: the replies to calls of the standard capabilities are those of a
  conversation.
-/

namespace GuestCode

/-- Nothing but the disk is different, and the disk has grown. -/
structure Machine.DiskGrown (m n : Machine) : Prop where
  disk : m.disk.Grown n.disk
  others : n = { m with disk := n.disk }

instance : Std.Refl Machine.DiskGrown := ⟨fun m => ⟨.refl m.disk, rfl⟩⟩

instance : IsTrans Machine Machine.DiskGrown where
  trans m n k h h' := by
    refine ⟨h.disk.trans h'.disk, ?_⟩
    rw [h'.others, h.others]

/-! ## What operations keep -/

/-- Whatever becomes of an operation, the machine before it and the one that it leaves are
related. -/
def Action.Keeps {α : Type} (R : Machine → Machine → Prop) (x : Action α) : Prop :=
  ∀ m, R m (x.run m).2

/-- An operation that leaves the machine as it is. -/
abbrev Action.Reads {α : Type} (x : Action α) : Prop := x.Keeps Eq

namespace Action

variable {α β : Type} {R : Machine → Machine → Prop}

namespace Keeps

theorem bind [IsTrans Machine R] {x : Action α} {f : α → Action β} (hx : x.Keeps R)
    (hf : ∀ a, (f a).Keeps R) : (x >>= f).Keeps R := by
  intro m
  have hfirst := hx m
  rw [run_bind]
  rcases hrun : x.run m with ⟨failure | a, n⟩
  · rwa [hrun] at hfirst
  · rw [hrun] at hfirst
    exact IsTrans.trans _ _ _ hfirst (hf a n)

variable [Std.Refl R]

theorem of_reads {x : Action α} (h : x.Reads) : x.Keeps R := fun m => by
  rw [← h m]
  exact Std.Refl.refl m

end Keeps

theorem reads_pure (a : α) : (pure a : Action α).Reads := fun _ => rfl

theorem reads_fail (failure : Failure) : (fail failure : Action α).Reads := fun _ => rfl

/-- What would come after a failure does not matter. -/
theorem reads_fail_bind (failure : Failure) (f : α → Action β) :
    ((fail failure : Action α) >>= f).Reads := fun _ => rfl

theorem reads_get : (get : Action Machine).Reads := fun _ => rfl

theorem reads_ofExcept (outcome : Except Failure α) : (ofExcept outcome).Reads := fun m => by
  rw [run_ofExcept]

theorem reads_onDisk (look : Disk → Place → Except Failure α) : (onDisk look).Reads := fun m => by
  rw [run_onDisk]

/-- Folders that have been made stay, also those before a failure. -/
theorem keeps_makeFolders (path : Path) : (makeFolders path).Keeps Machine.DiskGrown := by
  intro m
  have hextended := Disk.extended_makeFolders m.disk m.workdir path
  rw [run_makeFolders]
  rcases hmade : m.disk.makeFolders m.workdir path with ⟨disk, _ | failure⟩
  · rw [hmade] at hextended
    exact ⟨hextended.toGrown, rfl⟩
  · rw [hmade] at hextended
    exact ⟨hextended.toGrown, rfl⟩

theorem keeps_writeText (path : Path) (text : String) :
    (writeText path text).Keeps Machine.DiskGrown := by
  intro m
  rw [run_writeText]
  cases hwrite : m.disk.write m.workdir path (Utf8.encode text.toList) with
  | error failure => exact Std.Refl.refl m
  | ok disk =>
    obtain ⟨-, -, hgrown, -⟩ := Disk.exists_of_write hwrite
    exact ⟨hgrown, rfl⟩

end Action

open GuestCode.Action

/-! ## The file capability -/

namespace Files

variable (scope : Scope) (parameter : Value)

theorem reads_readFile : (readFile scope parameter).Reads := by
  unfold readFile
  refine .bind (reads_ofExcept _) fun _ => .bind (reads_ofExcept _) fun _ => ?_
  refine .bind (reads_onDisk _) fun isFile => ?_
  dsimp only
  split
  · exact .bind (reads_onDisk _) fun _ => reads_pure _
  · exact reads_fail_bind _ _

theorem keeps_writeFile : (writeFile scope parameter).Keeps Machine.DiskGrown := by
  unfold writeFile
  refine .bind (.of_reads (reads_ofExcept _)) fun _ => ?_
  refine .bind (.of_reads (reads_ofExcept _)) fun _ => ?_
  dsimp only
  split
  · refine .bind (keeps_makeFolders _) fun _ => .bind (keeps_writeText _ _) fun _ => ?_
    exact .of_reads (reads_pure _)
  · exact .of_reads (reads_fail _)

theorem reads_searchFiles : (searchFiles scope parameter).Reads := by
  unfold searchFiles
  refine .bind (reads_ofExcept _) fun _ => .bind (reads_ofExcept _) fun _ => ?_
  refine .bind (reads_onDisk _) fun isFolder => ?_
  dsimp only
  split
  · exact .bind (reads_onDisk _) fun _ => reads_pure _
  · exact reads_fail_bind _ _

end Files

/-! ## The store of best cases -/

namespace BestCases

variable (folder : Path) (parameter : Value)

theorem keeps_save : (save folder parameter).Keeps Machine.DiskGrown := by
  unfold save
  split
  · dsimp only
    split
    · refine .bind (.of_reads reads_get) fun _ => .bind (.of_reads (reads_ofExcept _)) fun _ => ?_
      refine .bind (.of_reads (reads_ofExcept _)) fun _ => ?_
      refine .bind (.of_reads (reads_ofExcept _)) fun _ => .bind (keeps_makeFolders _) fun _ => ?_
      split
      · exact .of_reads (reads_fail_bind _ _)
      · exact .bind (keeps_writeText _ _) fun _ => .of_reads (reads_pure _)
    · exact .of_reads (reads_fail_bind _ _)
  · exact .of_reads (reads_fail _)

theorem reads_load : (load folder parameter).Reads := by
  unfold load
  refine .bind (reads_ofExcept _) fun _ => ?_
  dsimp only
  split
  · refine .bind (reads_ofExcept _) fun _ => .bind (reads_onDisk _) fun isFile => ?_
    split
    · exact .bind (reads_onDisk _) fun _ => reads_pure _
    · exact .bind (reads_pure _) fun _ => reads_pure _
  · refine .bind (reads_onDisk _) fun _ => .bind (reads_ofExcept _) fun _ => ?_
    exact reads_pure _

theorem reads_listAll : (listAll folder).Reads :=
  .bind (reads_onDisk _) fun _ => .bind (reads_ofExcept _) fun _ =>
    .bind (reads_ofExcept _) fun _ => .bind (reads_ofExcept _) fun _ => reads_pure _

theorem reads_search : (search folder parameter).Reads :=
  .bind (reads_ofExcept _) fun _ => .bind (reads_ofExcept _) fun _ =>
    .bind (reads_onDisk _) fun _ => .bind (reads_ofExcept _) fun _ =>
      .bind (reads_ofExcept _) fun _ => reads_pure _

end BestCases

/-! ## Guides -/

namespace Guides

variable (folder : Path) (parameter : Value)

theorem reads_search : (search folder parameter).Reads :=
  .bind (reads_ofExcept _) fun _ => .bind (reads_ofExcept _) fun _ =>
    .bind (reads_ofExcept _) fun _ => .bind (reads_onDisk _) fun _ =>
      .bind (reads_ofExcept _) fun _ => .bind (reads_ofExcept _) fun _ => reads_pure _

theorem reads_load : (load folder parameter).Reads := by
  unfold load
  dsimp only
  -- The id is looked for in a parameter with entries only.
  split
  all_goals
    split
    · refine .bind (reads_onDisk _) fun _ => ?_
      split
      · exact reads_pure _
      · exact reads_fail _
    · exact reads_fail_bind _ _

theorem reads_combine : (combine folder parameter).Reads :=
  .bind (reads_onDisk _) fun _ => .bind (reads_ofExcept _) fun _ =>
    .bind (reads_ofExcept _) fun _ => reads_pure _

end Guides

/-! ## Metadata -/

namespace Metadata

theorem reads_analyzeFile (first second : Value) : (analyzeFile first second).Reads :=
  .bind (reads_ofExcept _) fun _ => reads_pure _

theorem reads_quickClassify (first second : Value) : (quickClassify first second).Reads :=
  .bind (reads_ofExcept _) fun _ => reads_pure _

end Metadata

/-! ## Tables -/

/-- A method that completes, and keeps a relation of machines whatever its arguments are. -/
structure Method.Keeps (R : Machine → Machine → Prop) (method : Method) : Prop where
  completes : method.completes = true
  call : ∀ arguments, (method.call arguments).Keeps R

theorem Signature.keeps_method {R : Machine → Machine → Prop} [Std.Refl R] [IsTrans Machine R]
    (s : Signature) {call : Value → Value → Action Value} (h : ∀ a b, (call a b).Keeps R) :
    (s.method call).Keeps R :=
  ⟨rfl, fun _ => .bind (.of_reads (reads_ofExcept _)) fun _ => h _ _⟩

theorem Method.Keeps.of_reads {R : Machine → Machine → Prop} [Std.Refl R] {method : Method}
    (h : method.Keeps Eq) : method.Keeps R :=
  ⟨h.completes, fun arguments => Action.Keeps.of_reads (h.call arguments)⟩

/-- The methods of a capability keep a relation of machines. -/
def Binding.Keeps (R : Machine → Machine → Prop) (b : Binding) : Prop :=
  ∀ method ∈ b.methods.map Prod.snd, method.Keeps R

theorem Files.keeps_binding (scope : Scope) : (binding scope).Keeps Machine.DiskGrown := by
  simp only [Binding.Keeps, binding, List.map_cons, List.map_nil, List.forall_mem_cons]
  refine ⟨?_, ?_, ?_, by simp⟩
  · exact Signature.keeps_method _ fun p _ => .of_reads (reads_readFile scope p)
  · exact Signature.keeps_method _ fun p _ => keeps_writeFile scope p
  · exact Signature.keeps_method _ fun p _ => .of_reads (reads_searchFiles scope p)

theorem BestCases.keeps_binding (folder : Path) : (binding folder).Keeps Machine.DiskGrown := by
  simp only [Binding.Keeps, binding, List.map_cons, List.map_nil, List.forall_mem_cons]
  refine ⟨?_, ?_, ?_, ?_, by simp⟩
  · exact Signature.keeps_method _ fun p _ => keeps_save folder p
  · exact Signature.keeps_method _ fun p _ => .of_reads (reads_load folder p)
  · exact Signature.keeps_method _ fun _ _ => .of_reads (reads_listAll folder)
  · exact Signature.keeps_method _ fun p _ => .of_reads (reads_search folder p)

theorem Guides.reads_binding (folder : Path) : (binding folder).Keeps Eq := by
  simp only [Binding.Keeps, binding, List.map_cons, List.map_nil, List.forall_mem_cons]
  refine ⟨?_, ?_, ?_, by simp⟩
  · exact Signature.keeps_method _ fun p _ => reads_search folder p
  · exact Signature.keeps_method _ fun p _ => reads_load folder p
  · exact Signature.keeps_method _ fun p _ => reads_combine folder p

theorem Metadata.reads_binding : binding.Keeps Eq := by
  simp only [Binding.Keeps, binding, List.map_cons, List.map_nil, List.forall_mem_cons]
  refine ⟨?_, ?_, ?_, by simp⟩
  · exact Signature.keeps_method _ reads_analyzeFile
  · exact Signature.keeps_method _ reads_quickClassify
  · exact Signature.keeps_method _ fun _ _ => reads_pure _

/-- The method that a call finds is one of the methods of a bound capability. -/
theorem BindingTable.exists_of_method {table : BindingTable} {capability name : String}
    {method : Method} (h : table.method capability name = .ok method) :
    ∃ b ∈ table.bindings, method ∈ b.methods.map Prod.snd := by
  unfold BindingTable.method at h
  split at h
  · next b hb =>
    refine ⟨b, List.mem_of_find?_eq_some hb, ?_⟩
    unfold Binding.method at h
    split at h
    · next found hfound =>
      cases h
      obtain ⟨before, after, hmethods, -⟩ := List.lookup_eq_some_iff.mp hfound
      simp [hmethods]
    · cases h
  · cases h

/-- The standard capabilities make the disk grow, and do nothing else. -/
theorem BindingTable.keeps_of_standardBindings {c : Configuration} {bindings : List Binding}
    {table : BindingTable} (hbindings : standardBindings c = .ok bindings)
    (htable : BindingTable.ofBindings bindings = .ok table) {capability name : String}
    {method : Method} (hmethod : table.method capability name = .ok method) :
    method.Keeps Machine.DiskGrown := by
  unfold standardBindings at hbindings
  obtain ⟨scope, -, hbindings⟩ := Outcome.exists_of_bind_eq_ok hbindings
  obtain ⟨caseFolder, -, hbindings⟩ := Outcome.exists_of_bind_eq_ok hbindings
  obtain ⟨guideFolder, -, hbindings⟩ := Outcome.exists_of_bind_eq_ok hbindings
  cases hbindings
  obtain ⟨_, -, rfl⟩ := Outcome.exists_of_map_eq_ok htable
  obtain ⟨b, hb, hin⟩ := exists_of_method hmethod
  simp only [List.mem_cons, List.not_mem_nil, or_false] at hb
  rcases hb with rfl | rfl | rfl | rfl
  · exact Files.keeps_binding scope method hin
  · exact BestCases.keeps_binding caseFolder method hin
  · exact (Guides.reads_binding guideFolder method hin).of_reads
  · exact (Metadata.reads_binding method hin).of_reads

/-- The replies to calls of the standard capabilities are those of a conversation. -/
theorem Engine.obliging_of_make {c : Configuration} {e : Engine} (h : make c none = .ok e) :
    Host.Obliging e.table := by
  unfold make at h
  obtain ⟨host, -, h⟩ := Outcome.exists_of_bind_eq_ok h
  obtain ⟨bindings, hbindings, h⟩ := Outcome.exists_of_bind_eq_ok h
  obtain ⟨table, htable, h⟩ := Outcome.exists_of_bind_eq_ok h
  cases h
  constructor
  · intro capability name method hmethod
    exact (BindingTable.keeps_of_standardBindings hbindings htable hmethod).completes
  · intro capability name method hmethod arguments m
    have hkept := BindingTable.keeps_of_standardBindings hbindings htable hmethod
    rw [(hkept.call arguments m).others]

end GuestCode
