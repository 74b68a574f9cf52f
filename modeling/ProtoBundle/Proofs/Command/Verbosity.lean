import ProtoBundle.Proofs.Command.Outcome

/-!
Verbose and quiet runs. A run has one transcript, whatever is shown of it: what is reported on the way, in order, and
how the run ends. A verbose run shows all of it and a quiet run the end alone.
-/

namespace ProtoBundle

namespace Arguments

def aloud (a : Arguments) (verbose : Bool) : Arguments := { a with verbose := verbose }

variable {env : Environment}

theorem override_put {a b : Arguments} (h : a.override env = .ok b) (value : String) :
    a.override (env.put "PW_VERBOSE" value) = .ok (b.aloud (isTrue value)) := by
  have hother : ∀ name, name ≠ "PW_VERBOSE" → (env.put "PW_VERBOSE" value).get? name = env.get? name := fun name hn => by
    rw [Table.get?_put, if_neg hn.symm]
  have hv : (env.put "PW_VERBOSE" value).get? "PW_VERBOSE" = some value := by rw [Table.get?_put, if_pos rfl]
  have hp : extraPaths (env.put "PW_VERBOSE" value) = extraPaths env := by
    unfold extraPaths
    rw [hother "PW_INCLUDE_PATH" (by decide)]
  unfold override at h ⊢
  rw [hother "PW_FORMAT" (by decide), hother "PW_NAMESPACE" (by decide), hother "PW_MIN" (by decide), hv, hp,
    Option.map_some, Option.getD_some]
  cases hf : env.get? "PW_FORMAT" with
  | none =>
      rw [hf] at h
      cases h
      rfl
  | some name =>
      rw [hf] at h
      dsimp only at h ⊢
      cases hc : Convention.ofName? (lowered name) with
      | none =>
          rw [hc] at h
          cases h
      | some c =>
          rw [hc] at h
          cases h
          rfl

theorem parse_put {words : List String} {a : Arguments} (h : parse words env = .ok a) (value : String) :
    parse words (env.put "PW_VERBOSE" value) = .ok (a.aloud (isTrue value)) := by
  unfold parse at h ⊢
  cases hw : ofWords words with
  | error stop =>
      rw [hw] at h
      cases h
  | ok b =>
      rw [hw] at h
      dsimp only at h ⊢
      cases ho : b.override env with
      | error f =>
          rw [ho] at h
          cases h
      | ok b =>
          rw [ho] at h
          cases h
          rw [override_put ho]

end Arguments

namespace Command

inductive Ending where
  | failed (status : Nat) (f : Failure)
  | written (text : String)
  | escaped (f : Failure)
  deriving DecidableEq, Repr

def Ending.of : Except Failure String → Ending
  | .ok text => .written text
  | .error f => if isExpected f then .failed 1 f else .escaped f

def Ending.line : Ending → String
  | .failed _ f => errorLine f
  | .written _ | .escaped _ => ""

structure Transcript where
  notices : List Notice
  ending : Ending
  deriving DecidableEq, Repr

namespace Transcript

def lines (r : Transcript) : String := Text.joinStrings "" (r.notices.map Notice.line)

def errors (r : Transcript) (verbose : Bool) : String := linesOf verbose r.notices ++ r.ending.line

def outcome (r : Transcript) (verbose : Bool) : Outcome :=
  match r.ending with
  | .failed status _ => .ended ⟨status, "", r.errors verbose⟩
  | .written text => .ended ⟨0, text, r.errors verbose⟩
  | .escaped f => .escaped f

end Transcript

def rendered (t : FileTree) (k : Converter) (before : List Notice) : Transcript :=
  ⟨before ++ (k.render t).notices, .of (k.render t).result⟩

/-- Nothing is reported of a check that ends at a directory without a name. -/
def transcript (t : FileTree) (a : Arguments) : Transcript :=
  match a.convention with
  | some c =>
      let checked := (converter a c).validate t
      match checked.result with
      | .ok () =>
          if a.paths.contains none then ⟨[], .escaped .namelessDirectory⟩
          else rendered t checked.converter checked.notices
      | .error e => ⟨checked.notices, .failed 2 e⟩
  | none => ⟨[], .escaped .missingConvention⟩

variable {t : FileTree} {a : Arguments}

theorem rendered_aloud (t : FileTree) (k : Converter) (before : List Notice) (verbose : Bool) :
    rendered t (k.aloud verbose) before = rendered t k before := by
  unfold rendered
  rw [Converter.render_aloud]
  rfl

theorem transcript_aloud (t : FileTree) (a : Arguments) (verbose : Bool) :
    transcript t (a.aloud verbose) = transcript t a := by
  have hk : ∀ c, converter (a.aloud verbose) c = (converter a c).aloud verbose := fun c => rfl
  have hc : (a.aloud verbose).convention = a.convention := rfl
  have hp : (a.aloud verbose).paths = a.paths := rfl
  unfold transcript
  rw [hc, hp]
  cases a.convention with
  | none => rfl
  | some c =>
      dsimp only
      rw [hk, Converter.validate_aloud]
      dsimp only [Converter.Reply.aloud]
      rw [rendered_aloud]

theorem render_eq (t : FileTree) (k : Converter) (before : List Notice) :
    render t k (linesOf k.verbose before) = (rendered t k before).outcome k.verbose := by
  unfold render
  dsimp only
  rw [← linesOf_append]
  unfold rendered
  cases (k.render t).result with
  | ok text =>
      change _ = Outcome.ended ⟨0, text, linesOf k.verbose _ ++ ""⟩
      rw [String.append_empty]
  | error f =>
      dsimp only [Ending.of]
      split <;> rfl

theorem convert_eq (t : FileTree) (a : Arguments) : convert t a = (transcript t a).outcome a.verbose := by
  unfold convert transcript
  cases a.convention with
  | none => rfl
  | some c =>
      have hv : ((converter a c).validate t).converter.verbose = a.verbose := by
        rw [Converter.converter_validate]
        rfl
      dsimp only
      generalize (converter a c).validate t = checked at hv ⊢
      cases checked.result with
      | error e => rfl
      | ok _ =>
          dsimp only
          simp only [List.contains_iff_mem]
          split
          · rfl
          · rw [← hv, render_eq]

inductive Louder (lines : String) : Outcome → Outcome → Prop
  | ended (status : Nat) (output errors : String) :
      Louder lines (.ended ⟨status, output, errors⟩) (.ended ⟨status, output, lines ++ errors⟩)
  | escaped (f : Failure) : Louder lines (.escaped f) (.escaped f)

theorem Transcript.errors_verbose (r : Transcript) : r.errors true = r.lines ++ r.errors false := by
  unfold errors
  have hq : linesOf false r.notices = "" := rfl
  rw [hq, String.empty_append]
  rfl

theorem Transcript.louder (r : Transcript) : Louder r.lines (r.outcome false) (r.outcome true) := by
  unfold outcome
  rw [r.errors_verbose]
  cases r.ending with
  | failed status f => exact .ended ..
  | written text => exact .ended ..
  | escaped f => exact .escaped f

theorem run_aloud {words : List String} {env : Environment} {verbose : Bool}
    (h : Arguments.parse words env = .ok (a.aloud verbose)) (t : FileTree) :
    run t words env = (transcript t a).outcome verbose := by
  rw [run_eq_convert h, convert_eq, transcript_aloud]
  rfl

theorem run_louder {words : List String} {env : Environment} (h : Arguments.parse words env = .ok a) (t : FileTree) :
    (∀ value, Arguments.parse words (env.put "PW_VERBOSE" value) = .ok (a.aloud (Arguments.isTrue value))) ∧
    (∀ others env' verbose, Arguments.parse others env' = .ok (a.aloud verbose) →
      run t others env' = (transcript t a).outcome verbose) ∧
    (∀ quiet env' loud env'', Arguments.parse quiet env' = .ok (a.aloud false) →
      Arguments.parse loud env'' = .ok (a.aloud true) →
      Louder (transcript t a).lines (run t quiet env') (run t loud env'')) ∧
    (transcript t a).errors true = (transcript t a).lines ++ (transcript t a).errors false := by
  refine ⟨Arguments.parse_put h, fun others env' verbose hv => run_aloud hv t, fun quiet env' loud env'' hq hl => ?_,
    (transcript t a).errors_verbose⟩
  rw [run_aloud hq, run_aloud hl]
  exact (transcript t a).louder

def remarkable : FileTree := (FileTree.empty ['/']).write "/a" "import\"\\n\";import\"b\";".toUTF8.toList

def remarks : List Notice :=
  [.includeDirectories [], .composing (.loading "/a"), .composing (.passedOver "\n" "/a")]

theorem run_louder_remarkable : ∃ r : Transcript, r = ⟨remarks, .failed 1 (.unresolved "/b" "b" (some "/a"))⟩ ∧
    run remarkable ["a"] [] = r.outcome false ∧
    Louder r.lines (run remarkable ["a"] []) (run remarkable ["-v", "a"] []) := by
  have hq : Arguments.parse ["a"] [] = .ok ⟨"a", [], some .structural, .absent, false, false⟩ := by decide +kernel
  have hl : Arguments.parse ["-v", "a"] [] = .ok ⟨"a", [], some .structural, .absent, false, true⟩ := by decide +kernel
  obtain ⟨-, houtcome, hlouder, -⟩ := run_louder hq remarkable
  exact ⟨_, by decide +kernel, houtcome _ _ false hq, hlouder _ _ _ _ hq hl⟩

end Command

end ProtoBundle
