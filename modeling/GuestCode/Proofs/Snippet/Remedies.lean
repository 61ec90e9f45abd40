import GuestCode.Proofs.Snippet.CapabilityCalls
import GuestCode.Snippet.Remedy
import Mathlib.Data.List.ReduceOption

/-!
# What a failed snippet is told

The rules are tried in their order, and the last one that applies decides. Whatever it says, the
error stands in it on a line of its own, so a message is the error itself only if no rule applies.

## Main statements

* `Remedy.explain_spec`: the message, whichever rules apply.
-/

namespace GuestCode.Remedy

open Text Grammar

variable {c : Case} {error message : String}

/-! ## The rule that decides -/

/-- The last of some rules that applies decides. -/
theorem foldl_rules (rules : List (Case → Option String)) (c : Case) (message : String) :
    rules.foldl (fun message rule => (rule c).getD message) message =
      ((rules.map fun rule => rule c).reduceOption).getLastD message := by
  induction rules generalizing message with
  | nil => rfl
  | cons rule rules ih =>
    rw [List.foldl_cons, ih, List.map_cons]
    cases rule c with
    | none => rfl
    | some told => rw [List.reduceOption_cons_of_some, Option.getD_some, List.getLastD_cons]

/-! ## The error in the message -/

/-- A message quotes an error on a line of its own, behind what is wrong and before what to do. -/
def Quotes (error message : String) : Prop :=
  ∃ cause advice : String, message = cause ++ "\nError: " ++ error ++ "\n\n" ++ advice

namespace Quotes

theorem infix_toList (h : Quotes error message) : error.toList <:+: message.toList := by
  obtain ⟨cause, advice, rfl⟩ := h
  refine ⟨(cause ++ "\nError: ").toList, ("\n\n" ++ advice).toList, ?_⟩
  simp only [String.toList_append, List.append_assoc]

/-- A message that quotes an error is longer than the error. -/
theorem ne (h : Quotes error message) : message ≠ error := by
  obtain ⟨cause, advice, rfl⟩ := h
  intro heq
  have hlength := congrArg String.length heq
  have hline : "\n\n".length = 2 := by decide
  simp only [String.length_append] at hlength
  omega

end Quotes

theorem quotes_remedy (cause error before after : String) :
    Quotes error (remedy cause error before after) := by
  refine ⟨cause, "Before:\n  " ++ before ++ "\nAfter:\n  " ++ after, ?_⟩
  have hlines : "\n\nBefore:\n  " = "\n\n" ++ "Before:\n  " := by decide
  simp only [remedy, hlines, String.append_assoc]

/-- Every rule quotes the error. -/
theorem quotes_of_mem_rules : ∀ rule ∈ rules, ∀ message, rule c = some message →
    Quotes c.error message := by
  have hremedy : ∀ {condition : Bool} {cause before after message : String},
      (if condition then some (remedy cause c.error before after) else none) = some message →
        Quotes c.error message := by
    intro condition cause before after message h
    split at h
    · exact Option.some.inj h ▸ quotes_remedy ..
    · cases h
  simp only [rules, List.forall_mem_cons]
  refine ⟨fun _ => hremedy, fun _ => hremedy, fun _ => hremedy, ?_, ?_, by simp⟩
  · -- The list of methods has a layout of its own.
    intro message h
    obtain ⟨call, -, rfl⟩ := Option.map_eq_some_iff.mp h
    have hquotes : ∀ cause advice : String, Quotes c.error
        (cause ++ "\nError: " ++ c.error ++ "\n\nCall shapes:\n  " ++ advice) := by
      intro cause advice
      have hlines : "\n\nCall shapes:\n  " = "\n\n" ++ "Call shapes:\n  " := by decide
      exact ⟨cause, "Call shapes:\n  " ++ advice, by simp only [hlines, String.append_assoc]⟩
    exact hquotes _ _
  · intro message h
    obtain ⟨call, -, rfl⟩ := Option.map_eq_some_iff.mp h
    exact quotes_remedy ..

theorem explain_eq (manifest : Manifest) (error : String) (source : List Char) :
    explain manifest error source =
      ((rules.map fun rule => rule ⟨manifest, error, source⟩).reduceOption).getLastD error :=
  foldl_rules rules ⟨manifest, error, source⟩ error

/-- What a failed snippet is told quotes the error, unless no rule applies. -/
theorem explain_cases (manifest : Manifest) (error : String) (source : List Char) :
    (explain manifest error source = error ∧
      ∀ rule ∈ rules, rule ⟨manifest, error, source⟩ = none) ∨
      Quotes error (explain manifest error source) := by
  rw [explain_eq]
  generalize hmessages :
    (rules.map fun rule => rule ⟨manifest, error, source⟩).reduceOption = messages
  have hmem : ∀ {message}, message ∈ messages ↔
      ∃ rule ∈ rules, rule ⟨manifest, error, source⟩ = some message := by
    intro message
    rw [← hmessages, List.reduceOption_mem_iff, List.mem_map]
  -- Either there is no message, or the last one is that of a rule.
  rcases List.eq_nil_or_concat messages with rfl | ⟨front, message, rfl⟩
  · refine .inl ⟨rfl, fun rule hrule => Option.eq_none_iff_forall_ne_some.mpr fun message h => ?_⟩
    exact List.not_mem_nil (hmem.mpr ⟨rule, hrule, h⟩)
  · obtain ⟨rule, hrule, h⟩ := hmem.mp (List.concat_eq_append ▸ List.mem_concat_self)
    rw [List.concat_eq_append, List.getLastD_concat]
    exact .inr (quotes_of_mem_rules rule hrule message h)

theorem explain_eq_error_iff {manifest : Manifest} {source : List Char} :
    explain manifest error source = error ↔
      ∀ rule ∈ rules, rule ⟨manifest, error, source⟩ = none := by
  constructor
  · intro h
    rcases explain_cases manifest error source with ⟨-, hnone⟩ | hquotes
    · exact hnone
    · exact absurd h hquotes.ne
  · intro hnone
    have hmessages : (rules.map fun rule => rule ⟨manifest, error, source⟩).reduceOption = [] := by
      refine List.eq_nil_iff_forall_not_mem.mpr fun message hmem => ?_
      obtain ⟨rule, hrule, h⟩ := List.mem_map.mp (List.reduceOption_mem_iff.mp hmem)
      rw [hnone rule hrule] at h
      cases h
    rw [explain_eq, hmessages]
    rfl

/-! ## Unknown methods -/

namespace Case

/-- The names of the capabilities. -/
def names (c : Case) : List (List Char) := c.manifest.map fun entry => entry.1.toList

/-- The capability has no such method. -/
def Lacks (c : Case) (capability method : List Char) : Prop :=
  String.ofList method ∉ (c.manifest.lookup (String.ofList capability)).getD []

theorem knows_eq_false_iff {call : CapabilityCall} :
    c.knows call = false ↔ c.Lacks call.capability call.method := by
  rw [Lacks, ← List.contains_iff_mem, Bool.not_eq_true]
  rfl

/-- The first call of the snippet on a method that its capability lacks. Where the capabilities are
named by identifiers, no other such call stands before it in the redacted view. -/
structure FirstUnknown (c : Case) (call : CapabilityCall) : Prop where
  first : ∃ earlier later, c.calls = earlier ++ call :: later ∧
    ∀ other ∈ earlier, ¬c.Lacks other.capability other.method
  unknown : c.Lacks call.capability call.method
  capability : call.capability ∈ c.names
  site : ∃ place, CallSite (redact c.source) place call.capability call.method ∧
    ((∀ name ∈ c.names, isIdentifier name = true) → ∀ place' < place, ∀ capability ∈ c.names,
      ∀ method, CallSite (redact c.source) place' capability method → ¬c.Lacks capability method)

end Case

theorem exists_firstUnknown (h : unknownMethod? c = some message) :
    ∃ call advice, c.FirstUnknown call ∧ message = String.ofList call.capability ++ "." ++
      String.ofList call.method ++ " is not a sandbox capability method. " ++ advice := by
  obtain ⟨call, hfind, rfl⟩ := Option.map_eq_some_iff.mp h
  obtain ⟨hunknown, earlier, later, hcalls, hknown⟩ := List.find?_eq_some_iff_append.mp hfind
  have hlacks : c.Lacks call.capability call.method :=
    Case.knows_eq_false_iff.mp (by simpa using hunknown)
  have hearlier : ∀ other ∈ earlier, ¬c.Lacks other.capability other.method := fun other hother =>
    Case.knows_eq_false_iff.not.mp (by simpa using hknown other hother)
  obtain ⟨hmem, place, hsite, hbefore⟩ := exists_callSite_of_capabilityCalls hcalls
  refine ⟨call, "Available " ++ String.ofList call.capability ++ " methods: " ++
    ", ".intercalate (c.methodsOf call) ++ "\nError: " ++ c.error ++ "\n\nCall shapes:\n  " ++
    "\n  ".intercalate ((c.methodsOf call).map (callShape (String.ofList call.capability))),
    ⟨⟨earlier, later, hcalls, hearlier⟩, hlacks, hmem, place, hsite, ?_⟩, ?_⟩
  · intro hnames place' hlt capability hcapability method hsite'
    obtain ⟨other, hother, rfl, rfl⟩ :=
      hbefore hnames place' hlt capability hcapability method hsite'
    exact hearlier other hother
  · have hwords : " is not a sandbox capability method. Available " =
        " is not a sandbox capability method. " ++ "Available " := by decide
    simp only [hwords, String.append_assoc]

/-- What a failed snippet is told: the message of the last rule that applies, or the error itself if
none does. The error stands in it in either case. If the rule on unknown methods decides, the method
is that of the first call that is unknown. -/
theorem explain_spec (manifest : Manifest) (error : String) (source : List Char) :
    let c : Case := ⟨manifest, error, source⟩
    let message := explain manifest error source
    message = [moduleSyntax? c, markup? c, typeSyntax? c, unknownMethod? c,
      positionalCall? c].reduceOption.getLastD error ∧
    (message = error ↔ moduleSyntax? c = none ∧ markup? c = none ∧ typeSyntax? c = none ∧
      unknownMethod? c = none ∧ positionalCall? c = none) ∧
    error.toList <:+: message.toList ∧
    (unknownMethod? c ≠ none → positionalCall? c = none →
      ∃ call advice, c.FirstUnknown call ∧ message = String.ofList call.capability ++ "." ++
        String.ofList call.method ++ " is not a sandbox capability method. " ++ advice) := by
  intro c message
  refine ⟨explain_eq manifest error source, ?_, ?_, ?_⟩
  · refine explain_eq_error_iff.trans ?_
    simp only [rules, List.forall_mem_cons]
    simp [c]
  · rcases explain_cases manifest error source with ⟨hsame, -⟩ | hquotes
    · exact congrArg String.toList hsame ▸ List.infix_rfl
    · exact hquotes.infix_toList
  · intro hunknown hpositional
    obtain ⟨told, htold⟩ := Option.ne_none_iff_exists'.mp hunknown
    have hmessage : message = (positionalCall? c).getD ((unknownMethod? c).getD
        ((typeSyntax? c).getD ((markup? c).getD ((moduleSyntax? c).getD error)))) := rfl
    rw [hmessage, hpositional, htold]
    exact exists_firstUnknown htold

/-- The unknown method of a call that stands in the arguments of another one. -/
theorem explain_unknown_in_argument :
    let source := "filesystem.readFile(\x7b path: guides.nope() \x7d)".toList
    let c : Case := ⟨defaultManifest, "boom", source⟩
    unknownMethod? c ≠ none ∧ positionalCall? c = none ∧
      ∃ call advice, c.FirstUnknown call ∧ explain defaultManifest "boom" source =
        String.ofList call.capability ++ "." ++ String.ofList call.method ++
          " is not a sandbox capability method. " ++ advice := by
  intro source c
  have hunknown : unknownMethod? c ≠ none := by decide +kernel
  have hpositional : positionalCall? c = none := by decide +kernel
  exact ⟨hunknown, hpositional,
    (explain_spec defaultManifest "boom" source).2.2.2 hunknown hpositional⟩

end GuestCode.Remedy
