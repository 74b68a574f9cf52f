import ProtoBundle.Proofs.Converter
import ProtoBundle.Proofs.Schema.Computations

namespace ProtoBundle.Session

def after (s : Session) (steps : List Step) : Session := steps.foldl (fun s step => (s.step step).1) s

theorem run_append (s : Session) (steps later : List Step) :
    s.run (steps ++ later) = s.run steps ++ (s.after steps).run later := by
  induction steps generalizing s with
  | nil => rfl
  | cons step steps ih =>
      change s.step step :: (s.step step).1.run (steps ++ later) = _
      rw [ih]
      rfl

def Step.Replaces (step : Step) : Prop := ∃ k, step = .newConverter k

section History

def attempt (s : Session) : Option Schema := s.converter.bind fun k => (k.composed s.files).toOption

/-- The schema loaded last, after a step with `held` for the schema loaded last before it. -/
def next (s : Session) (held : Option Schema) : Step → Option Schema
  | .load => s.attempt.or held
  | .convert => held.or s.attempt
  | _ => held

def latestFrom (s : Session) (held : Option Schema) : List Step → Option Schema
  | [] => held
  | step :: steps => (s.step step).1.latestFrom (s.next held step) steps

def latest (s : Session) (steps : List Step) : Option Schema := s.latestFrom none steps

theorem latest_concat (s : Session) (steps : List Step) (step : Step) :
    s.latest (steps ++ [step]) = (s.after steps).next (s.latest steps) step := by
  have h : ∀ held, s.latestFrom held (steps ++ [step]) = (s.after steps).next (s.latestFrom held steps) step := by
    induction steps generalizing s with
    | nil => exact fun _ => rfl
    | cons first steps ih => exact fun held => ih (s.step first).1 (s.next held first)
  exact h none

def Rendering.changed (r : Rendering) : Step → Rendering
  | .change c => ⟨c.convention.getD r.convention, c.request.getD r.request, c.layout.getD r.layout⟩
  | _ => r

def Rendering.after (r : Rendering) (steps : List Step) : Rendering := steps.foldl changed r

end History

section Converters

variable {s : Session} {k k' : Converter} {step : Step} {steps : List Step}

structure Carries (s : Session) (k : Converter) (steps : List Step) (k' : Converter) : Prop where
  input : k'.input = k.input
  verbose : k'.verbose = k.verbose
  includes : Step.validate ∉ steps → k'.includes = k.includes
  settings : k'.settings = k.settings.after steps
  schema : k'.schema = s.latestFrom k.schema steps

theorem Carries.nil (s : Session) (k : Converter) : Carries s k [] k := ⟨rfl, rfl, fun _ => rfl, rfl, rfl⟩

theorem Carries.cons {k'' : Converter} (h : Carries s k [step] k') (h' : Carries (s.step step).1 k' steps k'') :
    Carries s k (step :: steps) k'' where
  input := h'.input.trans h.input
  verbose := h'.verbose.trans h.verbose
  includes hm := by
    rw [List.mem_cons, not_or] at hm
    exact (h'.includes hm.2).trans (h.includes (by simpa using hm.1))
  settings := by
    rw [h'.settings, h.settings]
    rfl
  schema := by
    rw [h'.schema, h.schema]
    rfl

theorem onConverter_of_some (hk : s.converter = some k) {α : Type} (operation : Converter → Converter.Reply α)
    (answer : Converter → α → Answer) : s.onConverter operation answer =
      ({ s with converter := some (operation k).converter },
        ⟨(operation k).result.map (answer (operation k).converter), [], Converter.shown k.verbose (operation k).notices⟩) := by
  unfold onConverter
  rw [hk]

theorem attempt_of_some (hk : s.converter = some k) : s.attempt = (k.composed s.files).toOption := by
  rw [attempt, hk, Option.bind_some]

theorem carries_step (hk : s.converter = some k) (hs : ¬ step.Replaces) :
    ∃ k', (s.step step).1.converter = some k' ∧ Carries s k [step] k' := by
  cases step with
  | newConverter k' => exact absurd ⟨k', rfl⟩ hs
  | write | remove | newCache | begin_ | contains => exact ⟨k, hk, rfl, rfl, fun _ => rfl, rfl, rfl⟩
  | finish path =>
      refine ⟨k, ?_, rfl, rfl, fun _ => rfl, rfl, rfl⟩
      simp only [Session.step]
      split <;> exact hk
  | build path includes fresh =>
      refine ⟨k, ?_, rfl, rfl, fun _ => rfl, rfl, rfl⟩
      simp only [Session.step, Session.build]
      split <;> exact hk
  | render | accepts =>
      refine ⟨k, ?_, rfl, rfl, fun _ => rfl, rfl, rfl⟩
      simp only [Session.step, onLast]
      split <;> exact hk
  | change c => exact ⟨c.apply k, by rw [Session.step, hk]; rfl, rfl, rfl, fun _ => rfl, rfl, rfl⟩
  | validate =>
      refine ⟨(k.validate s.files).converter, by rw [Session.step, onConverter_of_some hk], ?_⟩
      rw [Converter.converter_validate]
      exact ⟨rfl, rfl, fun hm => absurd (List.mem_singleton_self _) hm, rfl, rfl⟩
  | load =>
      refine ⟨(k.load s.files).converter, by rw [Session.step, onConverter_of_some hk], ?_⟩
      rw [Converter.converter_load]
      exact ⟨rfl, rfl, fun _ => rfl, rfl, by rw [latestFrom, latestFrom, next, attempt_of_some hk]⟩
  | convert =>
      refine ⟨(k.render s.files).converter, by rw [Session.step, onConverter_of_some hk], ?_⟩
      rw [Converter.converter_render]
      exact ⟨rfl, rfl, fun _ => rfl, rfl, by rw [latestFrom, latestFrom, next, attempt_of_some hk]⟩

theorem carries_after (hk : s.converter = some k) (hs : ∀ step ∈ steps, ¬ step.Replaces) :
    ∃ k', (s.after steps).converter = some k' ∧ Carries s k steps k' := by
  induction steps generalizing s k with
  | nil => exact ⟨k, hk, .nil s k⟩
  | cons step steps ih =>
      obtain ⟨hstep, hs⟩ := List.forall_mem_cons.mp hs
      obtain ⟨k', hk', hc⟩ := carries_step hk hstep
      obtain ⟨k'', hk'', hc'⟩ := ih hk' hs
      exact ⟨k'', hk'', hc.cons hc'⟩

/-- What comes of a converter after some steps from where nothing has been loaded. `k` is the converter of before, and
`k'` the one that is left. -/
structure Serves (s : Session) (k : Converter) (steps : List Step) (k' : Converter) : Prop where
  continues : ∀ later, s.run (steps ++ later) = s.run steps ++ (s.after steps).run later
  carries : Carries s k steps k'
  schema : k'.schema = s.latest steps
  rendered : ∀ text, ((s.after steps).step .convert).2.answer = .ok (.text text) →
    ∃ schema, s.latest (steps ++ [.convert]) = some schema ∧ (k.settings.after steps).of schema = .ok text
  settled : ∀ schema, s.latest steps = some schema → ∀ t : FileTree,
    { s.after steps with files := t }.step .convert = ({ s.after steps with files := t },
      ⟨((k.settings.after steps).of schema).map .text, [],
        Converter.shown k.verbose [(k.settings.after steps).notice]⟩)
  unsettled : s.latest steps = none → ((s.after steps).step .convert).2.answer =
    ((k'.composed (s.after steps).files).bind (k.settings.after steps).of).map .text
  validate_failed : ∀ e, ((s.after steps).step .validate).2.answer = .error e →
    ((s.after steps).step .validate).1 = s.after steps
  load_failed : ∀ e, ((s.after steps).step .load).2.answer = .error e → ((s.after steps).step .load).1 = s.after steps
  converted : ((s.after steps).step .convert).1 = s.after steps ∨
    s.latest steps = none ∧ ∃ schema, k'.composed (s.after steps).files = .ok schema ∧
      ((s.after steps).step .convert).1 = { s.after steps with converter := some { k' with schema := some schema } }

theorem eq_of_failed_validate (hk : s.converter = some k) {e : Failure}
    (h : (s.step .validate).2.answer = .error e) : (s.step .validate).1 = s := by
  rw [Session.step, onConverter_of_some hk] at h ⊢
  have hr : (k.validate s.files).converter = k := by
    unfold Converter.validate at h ⊢
    cases hc : Composition.checkDirectories s.files k.includes with
    | error e => rfl
    | ok paths =>
        rw [hc] at h
        cases h
  rw [hr, ← hk]

theorem eq_of_failed_load (hk : s.converter = some k) {e : Failure}
    (h : (s.step .load).2.answer = .error e) : (s.step .load).1 = s := by
  rw [Session.step, onConverter_of_some hk] at h ⊢
  have hc : k.composed s.files = .error e := by
    rw [← Converter.result_load]
    exact eq_error_of_map h
  have hr : (k.load s.files).converter = k := by rw [Converter.converter_load, hc]; rfl
  rw [hr, ← hk]

theorem answer_convert_of_none (hk : s.converter = some k) (hn : k.schema = none) :
    (s.step .convert).2.answer = ((k.composed s.files).bind k.settings.of).map .text := by
  rw [Session.step, onConverter_of_some hk, Converter.render_of_none s.files hn]

theorem step_convert_of_some (hk : s.converter = some k) {schema : Schema} (h : k.schema = some schema) :
    s.step .convert =
      (s, ⟨(k.settings.of schema).map .text, [], Converter.shown k.verbose [k.settings.notice]⟩) := by
  rw [Session.step, onConverter_of_some hk, Converter.render_of_some s.files h, ← hk]

theorem session_convert_of_none (hk : s.converter = some k) (hn : k.schema = none) :
    (s.step .convert).1 = { s with converter := some { k with schema := (k.composed s.files).toOption } } := by
  rw [Session.step, onConverter_of_some hk, Converter.converter_render, hn, Option.none_or]

theorem of_next_of_convert (hk : s.converter = some k) {text : String}
    (h : (s.step .convert).2.answer = .ok (.text text)) :
    ∃ schema, s.next k.schema .convert = some schema ∧ k.settings.of schema = .ok text := by
  cases hschema : k.schema with
  | some schema =>
      rw [step_convert_of_some hk hschema] at h
      obtain ⟨_, hr, ⟨⟩⟩ := exists_of_map_eq_ok h
      exact ⟨schema, rfl, hr⟩
  | none =>
      rw [answer_convert_of_none hk hschema] at h
      obtain ⟨_, hr, ⟨⟩⟩ := exists_of_map_eq_ok h
      rw [next, Option.none_or, attempt_of_some hk]
      cases hc : k.composed s.files with
      | error e =>
          rw [hc] at hr
          cases hr
      | ok schema =>
          rw [hc] at hr
          exact ⟨schema, rfl, hr⟩

/-- Only the first load of all can leave a schema in a rendering. The rendering itself need not succeed. -/
theorem session_of_convert (hk : s.converter = some k) :
    (s.step .convert).1 = s ∨ k.schema = none ∧ ∃ schema, k.composed s.files = .ok schema ∧
      (s.step .convert).1 = { s with converter := some { k with schema := some schema } } := by
  cases hschema : k.schema with
  | some schema => exact .inl (by rw [step_convert_of_some hk hschema])
  | none =>
      rw [session_convert_of_none hk hschema]
      cases hc : k.composed s.files with
      | error e =>
          refine .inl ?_
          rw [Except.toOption, ← hschema, ← hk]
      | ok schema => exact .inr ⟨rfl, schema, rfl, rfl⟩

theorem serves_after (hk : s.converter = some k) (hn : k.schema = none) (hs : ∀ step ∈ steps, ¬ step.Replaces) :
    ∃ k', (s.after steps).converter = some k' ∧ Serves s k steps k' := by
  obtain ⟨k', hk', hc⟩ := carries_after hk hs
  have hschema : k'.schema = s.latest steps := by rw [hc.schema, hn]; rfl
  refine ⟨k', hk', run_append s steps, hc, hschema, ?_, ?_, ?_, fun e => eq_of_failed_validate hk',
    fun e => eq_of_failed_load hk', ?_⟩
  · intro text ht
    rw [latest_concat, ← hschema, ← hc.settings]
    exact of_next_of_convert hk' ht
  · intro schema hl t
    rw [← hc.settings, ← hc.verbose]
    exact step_convert_of_some (s := { s.after steps with files := t }) hk' (hschema.trans hl)
  · intro hl
    rw [← hc.settings]
    exact answer_convert_of_none hk' (hschema.trans hl)
  · rw [← hschema]
    exact session_of_convert hk'

def refusing : Session where
  files := (FileTree.empty ['/']).write "/a" []
  cache := .empty
  last := none
  converter := some ⟨"a", [], .exported, .named "X", .compact, false, none⟩

def relenting : List Step := [.convert, .remove "/a", .change ⟨none, some .absent, none⟩]

theorem serves_after_refusal : ∃ schema text, refusing.latest relenting = some schema ∧
    ∀ t : FileTree, ({ refusing.after relenting with files := t }.step .convert).2.answer = .ok (.text text) := by
  have hl : ((refusing.latest relenting).bind fun schema =>
      (((Rendering.mk .exported (.named "X") .compact).after relenting).of schema).toOption).isSome = true := by
    decide +kernel
  obtain ⟨text, ht⟩ := Option.isSome_iff_exists.mp hl
  obtain ⟨schema, hschema, ht⟩ := Option.bind_eq_some_iff.mp ht
  have hs : ∀ step ∈ relenting, ¬ step.Replaces := by simp [relenting, Step.Replaces]
  obtain ⟨k', -, h⟩ := serves_after (s := refusing) rfl rfl hs
  refine ⟨schema, text, hschema, fun t => ?_⟩
  rw [h.settled schema hschema t]
  exact congrArg (·.map Answer.text) (eq_ok_of_toOption ht)

theorem refused_convert_loads :
    refusing.converter.map (·.schema.isSome) = some false ∧
    (refusing.step .convert).2.answer = .error (.illegalNamespace "X") ∧
    (refusing.step .convert).1.converter.map (·.schema.isSome) = some true ∧
    (refusing.after relenting).attempt.isSome = false ∧
    ((refusing.after relenting).step .convert).2.answer.toOption.isSome = true := by
  refine ⟨rfl, eq_error_of_map (f := fun _ => ()) ?_, ?_, ?_, ?_⟩ <;> decide +kernel

end Converters

end ProtoBundle.Session
