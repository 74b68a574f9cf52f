import ProtoBundle.Command
import ProtoBundle.Proofs.Composition.Blame
import ProtoBundle.Proofs.Composition.CheckedDirectories
import ProtoBundle.Proofs.Converter
import ProtoBundle.Proofs.Rendering.Enclosure

/-!
How the command ends, once its arguments are read. Each status has one cause, and what is shown on the way is
followed by one line about the failure, if there is one. A failure that gets past the command comes from the
arguments, or from a decimal literal that is too long to be read. How deep a run may nest is not limited here.
-/

namespace ProtoBundle

namespace Composition

theorem checkDirectories_of_absent {t other : FileTree} {ds : List String}
    (ho : ∀ d ∈ ds, other.isDirectory d = t.isDirectory d) (h : ∃ d ∈ ds, t.isDirectory d = false) :
    ∃ d, checkDirectories t ds = .error (.missingDirectory d) ∧
      checkDirectories other ds = .error (.missingDirectory d) := by
  rcases checkDirectories_cases t ds with ⟨hall, -⟩ | ⟨front, d, back, rfl, hf, hd, hk⟩
  · obtain ⟨d, hm, hd⟩ := h
    rw [hall d hm] at hd
    cases hd
  · obtain ⟨hfront, hrest⟩ := List.forall_mem_append.mp ho
    have hother : other.isDirectory d = false := (hrest d List.mem_cons_self).trans hd
    exact ⟨d, hk, checkDirectories_of_first (fun b hb => (hfront b hb).trans (hf b hb)) hother back⟩

end Composition

namespace Command

open ProtoBundle.Composition (checkDirectories)

variable {t : FileTree} {a : Arguments} {c : Convention} {f : Failure} {o : Outcome}

def layout (a : Arguments) : Json.Layout := if a.compact then .compact else .pretty

def Absent (t : FileTree) (a : Arguments) : Prop := ∃ d ∈ directories a.paths, t.isDirectory d = false

def composed (t : FileTree) (a : Arguments) : Except Failure Schema :=
  (Composition.build t ((directories a.paths).map t.absolute) a.input .empty).result

def rendering (t : FileTree) (a : Arguments) (c : Convention) : Except Failure String :=
  (composed t a).bind (·.render c a.request (layout a))

/-- The input has a path that cannot be opened, or a literal that cannot be read. -/
def Unread (t : FileTree) (a : Arguments) (f : Failure) : Prop :=
  '\x00' ∈ (t.absolute a.input).toList ∧ f = .embeddedNull (t.absolute a.input) ∨ composed t a = .error f ∧ IsTooLong f

theorem Unread.composed (h : Unread t a f) : composed t a = .error f := by
  rcases h with ⟨hz, rfl⟩ | ⟨hf, -⟩
  · exact Composition.build_eq_embeddedNull_iff.mpr ⟨hz, rfl⟩
  · exact hf

theorem Unread.isExpected (h : Unread t a f) : isExpected f = false := by
  rcases h with ⟨-, rfl⟩ | ⟨-, construct, digits, rfl⟩ <;> rfl

theorem isExpected_of_composed (h : composed t a = .error f) : isExpected f = true ∨ Unread t a f := by
  have hf := Composition.blames_of_build h
  cases f with
  | cycle | unresolved | malformed | missingFile | notDirectory | isDirectory => exact .inl rfl
  | embeddedNull place =>
      obtain ⟨hz, rfl⟩ := Composition.build_eq_embeddedNull_iff.mp h
      exact .inr (.inl ⟨hz, rfl⟩)
  | literalTooLong construct digits => exact .inr (.inr ⟨h, construct, digits, rfl⟩)
  | _ =>
      obtain ⟨file, -, hl⟩ := hf
      exact (Composition.raises_load t file _ hl).elim

theorem isExpected_of_render {s : Schema} {request : Namespace.Request} {l : Json.Layout}
    (h : s.render c request l = .error f) : isExpected f = true := by
  rw [Schema.render_eq] at h
  cases hn : s.scope c request with
  | error e =>
      rw [hn] at h
      cases h
      unfold Schema.scope Namespace.resolve at hn
      split at hn
      · cases hn
      · split at hn
        · cases hn
        · split at hn <;> cases hn
          rfl
  | ok name =>
      rw [hn] at h
      change (if _ then _ else _) = _ at h
      split at h <;> cases h
      rfl

theorem joinStrings_empty_append (xs ys : List String) :
    Text.joinStrings "" (xs ++ ys) = Text.joinStrings "" xs ++ Text.joinStrings "" ys := by
  have hc : ∀ (x : String) (zs : List String), Text.joinStrings "" (x :: zs) = x ++ Text.joinStrings "" zs := by
    intro x zs
    cases zs with
    | nil => rw [Text.joinStrings_singleton]; simp [Text.joinStrings, Text.join]
    | cons z zs => rw [Text.joinStrings_cons _ _ (by simp), String.append_empty]
  induction xs with
  | nil => simp [Text.joinStrings, Text.join]
  | cons x xs ih => rw [List.cons_append, hc, hc, ih, String.append_assoc]

theorem linesOf_append (verbose : Bool) (notices others : List Notice) :
    linesOf verbose (notices ++ others) = linesOf verbose notices ++ linesOf verbose others := by
  cases verbose with
  | false => rfl
  | true =>
      change Text.joinStrings "" ((notices ++ others).map Notice.line) = _
      rw [List.map_append, joinStrings_empty_append]
      rfl

theorem linesOf_nil (verbose : Bool) : linesOf verbose [] = "" := by
  cases verbose <;> rfl

inductive Converts (t : FileTree) (a : Arguments) : Outcome → Prop
  | unconventional (h : a.convention = none) : Converts t a (.escaped .missingConvention)
  | absent {c : Convention} {d : String} (h : a.convention = some c) (hd : d ∈ directories a.paths)
      (ha : t.isDirectory d = false) :
      Converts t a (.ended ⟨2, "", errorLine (.missingDirectory d)⟩)
  | nameless {c : Convention} (h : a.convention = some c) (hd : ¬Absent t a) (hn : none ∈ a.paths) :
      Converts t a (.escaped .namelessDirectory)
  | unread {c : Convention} {f : Failure} (h : a.convention = some c) (hd : ¬Absent t a) (hn : none ∉ a.paths)
      (hf : Unread t a f) : Converts t a (.escaped f)
  | failed {c : Convention} {f : Failure} (notices : List Notice) (h : a.convention = some c)
      (hd : ¬Absent t a) (hn : none ∉ a.paths) (hf : rendering t a c = .error f) (he : isExpected f = true) :
      Converts t a (.ended ⟨1, "", linesOf a.verbose notices ++ errorLine f⟩)
  | rendered {c : Convention} {text : String} (notices : List Notice) (h : a.convention = some c)
      (hd : ¬Absent t a) (hn : none ∉ a.paths) (ht : rendering t a c = .ok text) :
      Converts t a (.ended ⟨0, text, linesOf a.verbose notices⟩)

theorem isExpected_of_rendering (h : rendering t a c = .error f) : isExpected f = true ∨ Unread t a f := by
  unfold rendering at h
  cases hc : composed t a with
  | error e =>
      rw [hc] at h
      cases h
      exact isExpected_of_composed hc
  | ok s =>
      rw [hc] at h
      exact .inl (isExpected_of_render h)

theorem validate_cases (t : FileTree) (a : Arguments) (c : Convention) :
    (¬Absent t a ∧ ∃ k notices, (converter a c).validate t = ⟨.ok (), k, notices⟩ ∧ k.verbose = a.verbose ∧
      (k.render t).result = rendering t a c) ∨
    ∃ d ∈ directories a.paths, t.isDirectory d = false ∧
      (converter a c).validate t = ⟨.error (.missingDirectory d), converter a c, []⟩ := by
  have hi : (converter a c).includes = directories a.paths := rfl
  unfold Converter.validate
  rw [hi]
  rcases Composition.checkDirectories_cases t (directories a.paths) with
    ⟨hd, hk⟩ | ⟨front, d, back, hds, -, hd, hk⟩
  · have ha : ¬Absent t a := by
      rintro ⟨d, hm, hf⟩
      rw [hd d hm] at hf
      cases hf
    rw [hk]
    refine .inl ⟨ha, _, _, rfl, rfl, ?_⟩
    rw [Converter.render_of_none t rfl]
    rfl
  · exact .inr ⟨d, by simp [hds], hd, by rw [hk]⟩

theorem converts (t : FileTree) (a : Arguments) : Converts t a (convert t a) := by
  unfold convert
  cases hc : a.convention with
  | none => exact .unconventional hc
  | some c =>
      dsimp only
      rcases validate_cases t a c with ⟨ha, k, notices, hv, hk, hr⟩ | ⟨d, hm, hd, hv⟩
      · rw [hv]
        dsimp only
        split
        · rename_i hn
          exact .nameless hc ha hn
        · rename_i hn
          unfold render
          dsimp only
          rw [hr, hk, ← linesOf_append]
          cases ht : rendering t a c with
          | ok text => exact .rendered _ hc ha hn ht
          | error f =>
              dsimp only
              split
              · rename_i he
                exact .failed _ hc ha hn ht he
              · rename_i he
                exact .unread hc ha hn ((isExpected_of_rendering ht).resolve_left he)
      · rw [hv]
        dsimp only
        rw [linesOf_nil, String.empty_append]
        exact .absent hc hm hd

def Escapes (t : FileTree) (a : Arguments) (f : Failure) : Prop :=
  a.convention = none ∧ f = .missingConvention ∨
  a.convention ≠ none ∧ ¬Absent t a ∧
    (none ∈ a.paths ∧ f = .namelessDirectory ∨ none ∉ a.paths ∧ Unread t a f)

def Renders (t : FileTree) (a : Arguments) (text : String) : Prop :=
  ¬Absent t a ∧ none ∉ a.paths ∧ ∃ c s, a.convention = some c ∧ composed t a = .ok s ∧
    s.render c a.request (layout a) = .ok text

theorem rendering_eq_ok {written : String} :
    rendering t a c = .ok written ↔ ∃ s, composed t a = .ok s ∧ s.render c a.request (layout a) = .ok written := by
  unfold rendering
  cases composed t a with
  | error e => simp [Except.bind]
  | ok s => simp [Except.bind]

theorem Converts.escapes (h : Converts t a (.escaped f)) : Escapes t a f := by
  cases h with
  | unconventional h => exact .inl ⟨h, rfl⟩
  | nameless h hd hn => exact .inr ⟨by simp [h], hd, .inl ⟨hn, rfl⟩⟩
  | unread h hd hn hf => exact .inr ⟨by simp [h], hd, .inr ⟨hn, hf⟩⟩

theorem Converts.eq_of_escapes (h : Converts t a o) (he : Escapes t a f) : o = .escaped f := by
  rcases he with ⟨hc, rfl⟩ | ⟨hc, ha, ⟨hn, rfl⟩ | ⟨hn, hf⟩⟩
  · cases h with
    | unconventional => rfl
    | absent h | nameless h | unread h | failed _ h | rendered _ h => cases hc.symm.trans h
  · cases h with
    | unconventional h => exact absurd h hc
    | absent _ hd hx => exact absurd ⟨_, hd, hx⟩ ha
    | nameless => rfl
    | unread _ _ h | failed _ _ _ h | rendered _ _ _ h => exact absurd hn h
  · cases h with
    | unconventional h => exact absurd h hc
    | absent _ hd hx => exact absurd ⟨_, hd, hx⟩ ha
    | nameless _ _ h => exact absurd h hn
    | unread _ _ _ h =>
        cases hf.composed.symm.trans h.composed
        rfl
    | failed _ _ _ _ h hx =>
        rw [rendering, hf.composed] at h
        cases h
        rw [hf.isExpected] at hx
        cases hx
    | rendered _ _ _ _ h =>
        rw [rendering, hf.composed] at h
        cases h

theorem Converts.eq_of_renders {written : String} (h : Converts t a o) (hr : Renders t a written) :
    ∃ errors, o = .ended ⟨0, written, errors⟩ := by
  obtain ⟨ha, hn, c, s, hc, hs, hw⟩ := hr
  have ht : rendering t a c = .ok written := rendering_eq_ok.mpr ⟨s, hs, hw⟩
  cases h with
  | unconventional h => cases hc.symm.trans h
  | absent _ hd hx => exact absurd ⟨_, hd, hx⟩ ha
  | nameless _ _ h => exact absurd h hn
  | unread _ _ _ h => cases hs.symm.trans h.composed
  | failed _ h _ _ hf =>
      cases hc.symm.trans h
      cases ht.symm.trans hf
  | rendered notices h _ _ hf =>
      cases hc.symm.trans h
      cases ht.symm.trans hf
      exact ⟨_, rfl⟩

structure Accounts (t : FileTree) (a : Arguments) (o : Outcome) : Prop where
  escaped_iff : ∀ f, o = .escaped f ↔ Escapes t a f
  absent_iff : (∃ exit, o = .ended exit ∧ exit.status = 2) ↔ a.convention ≠ none ∧ Absent t a
  rendered_iff : ∀ written, (∃ exit, o = .ended exit ∧ exit.status = 0 ∧ exit.output = written) ↔ Renders t a written
  status : ∀ exit, o = .ended exit → exit.status = 0 ∨ exit.status = 1 ∨ exit.status = 2
  failed : ∀ exit, o = .ended exit → exit.status ≠ 0 →
    exit.output = "" ∧ ∃ notices f, exit.errors = linesOf a.verbose notices ++ errorLine f

theorem Converts.accounts (h : Converts t a o) : Accounts t a o where
  escaped_iff f := by
    constructor
    · rintro rfl
      exact h.escapes
    · exact h.eq_of_escapes
  absent_iff := by
    constructor
    · rintro ⟨exit, rfl, hs⟩
      cases h with
      | absent h hd ha => exact ⟨by simp [h], _, hd, ha⟩
      | failed | rendered => cases hs
    · rintro ⟨hc, ha⟩
      cases h with
      | unconventional h => exact absurd h hc
      | absent => exact ⟨_, rfl, rfl⟩
      | nameless _ h | unread _ h | failed _ _ h | rendered _ _ h => exact absurd ha h
  rendered_iff written := by
    constructor
    · rintro ⟨exit, rfl, hs, rfl⟩
      cases h with
      | absent | failed => cases hs
      | rendered _ h hd hn ht =>
          obtain ⟨s, hs, hw⟩ := rendering_eq_ok.mp ht
          exact ⟨hd, hn, _, s, h, hs, hw⟩
    · intro hr
      obtain ⟨errors, rfl⟩ := h.eq_of_renders hr
      exact ⟨_, rfl, rfl, rfl⟩
  status := by
    rintro exit rfl
    cases h <;> simp
  failed := by
    rintro exit rfl hs
    cases h with
    | @absent c d =>
        exact ⟨rfl, [], .missingDirectory d, by rw [linesOf_nil, String.empty_append]⟩
    | failed notices => exact ⟨rfl, notices, _, rfl⟩
    | rendered => exact absurd rfl hs

theorem run_eq_convert {words : List String} {env : Environment} (h : Arguments.parse words env = .ok a)
    (t : FileTree) : run t words env = convert t a := by
  unfold run
  rw [h]

theorem convert_of_missing {d : String} (hc : a.convention = some c)
    (hk : checkDirectories t (directories a.paths) = .error (.missingDirectory d)) :
    convert t a = .ended ⟨2, "", errorLine (.missingDirectory d)⟩ := by
  have hi : (converter a c).includes = directories a.paths := rfl
  simp only [convert, hc, Converter.validate, hi, hk, linesOf_nil, String.empty_append]

theorem convert_of_absent (ha : Absent t a) {other : FileTree}
    (ho : ∀ d ∈ directories a.paths, other.isDirectory d = t.isDirectory d) : convert other a = convert t a := by
  obtain ⟨d, ht, hother⟩ := Composition.checkDirectories_of_absent ho ha
  cases hc : a.convention with
  | none => simp only [convert, hc]
  | some c => rw [convert_of_missing hc ht, convert_of_missing hc hother]

theorem run_accounts {words : List String} {env : Environment} {a : Arguments}
    (h : Arguments.parse words env = .ok a) (t : FileTree) :
    Accounts t a (run t words env) ∧
    (Absent t a → ∀ other : FileTree, (∀ d ∈ directories a.paths, other.isDirectory d = t.isDirectory d) →
      run other words env = run t words env) := by
  rw [run_eq_convert h t]
  refine ⟨(converts t a).accounts, fun ha other ho => ?_⟩
  rw [run_eq_convert h other]
  exact convert_of_absent ha ho

theorem run_of_null_character :
    Arguments.parse ["a\x00"] [] = .ok ⟨"a\x00", [], some .structural, .absent, false, false⟩ ∧
    run (FileTree.empty ['/']) ["a\x00"] [] = .escaped (.embeddedNull "/a\x00") := by
  have h : Arguments.parse ["a\x00"] [] = .ok ⟨"a\x00", [], some .structural, .absent, false, false⟩ := by
    decide +kernel
  have hu : Unread (.empty ['/']) ⟨"a\x00", [], some .structural, .absent, false, false⟩ (.embeddedNull "/a\x00") :=
    .inl ⟨by decide +kernel, by decide +kernel⟩
  have he : Escapes (.empty ['/']) ⟨"a\x00", [], some .structural, .absent, false, false⟩ (.embeddedNull "/a\x00") :=
    .inr ⟨by simp, by simp [Absent, directories], .inr ⟨List.not_mem_nil, hu⟩⟩
  exact ⟨h, ((run_accounts h (.empty ['/'])).1.escaped_iff _).mpr he⟩

end Command

end ProtoBundle
