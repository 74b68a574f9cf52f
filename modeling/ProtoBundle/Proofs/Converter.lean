import ProtoBundle.Session

namespace ProtoBundle

namespace Session

def Rendering.of (r : Rendering) (s : Schema) : Except Failure String := s.render r.convention r.request r.layout

def Rendering.notice (r : Rendering) : Notice := .rendering r.convention r.layout r.request

end Session

namespace Converter

open ProtoBundle.Composition (checkDirectories)

def settings (k : Converter) : Session.Rendering := ⟨k.convention, k.request, k.layout⟩

def composed (k : Converter) (t : FileTree) : Except Failure Schema :=
  (Composition.build t k.includes k.input .empty).result

variable (k : Converter) (t : FileTree)

theorem converter_validate :
    (k.validate t).converter = { k with includes := (checkDirectories t k.includes).toOption.getD k.includes } := by
  unfold validate
  cases checkDirectories t k.includes <;> rfl

theorem result_load : (k.load t).result = k.composed t := by
  unfold load composed
  dsimp only
  cases (Composition.build t k.includes k.input .empty).result <;> rfl

theorem converter_load : (k.load t).converter = { k with schema := (k.composed t).toOption.or k.schema } := by
  unfold load composed
  dsimp only
  cases (Composition.build t k.includes k.input .empty).result <;> rfl

variable {k}

theorem render_of_some {s : Schema} (h : k.schema = some s) :
    k.render t = ⟨k.settings.of s, k, [k.settings.notice]⟩ := by
  unfold render
  rw [h]
  rfl

theorem render_of_none (h : k.schema = none) :
    k.render t = ⟨(k.composed t).bind k.settings.of, { k with schema := (k.composed t).toOption },
      (k.load t).notices ++ if (k.composed t).isOk then [k.settings.notice] else []⟩ := by
  have hk : (k.load t).converter = { k with schema := (k.composed t).toOption } := by
    rw [converter_load, h, Option.or_none]
  unfold render
  rw [h]
  dsimp only
  rw [result_load, hk]
  cases k.composed t with
  | error e => exact congrArg (Reply.mk _ _) (List.append_nil _).symm
  | ok s => rfl

theorem converter_render (k : Converter) :
    (k.render t).converter = { k with schema := k.schema.or (k.composed t).toOption } := by
  cases h : k.schema with
  | some s =>
      rw [render_of_some t h, Option.some_or, ← h]
  | none => rw [render_of_none t h, Option.none_or]

section Verbosity

def aloud (k : Converter) (verbose : Bool) : Converter := { k with verbose := verbose }

def Reply.aloud {α : Type} (r : Reply α) (verbose : Bool) : Reply α :=
  { r with converter := r.converter.aloud verbose }

variable (k) (verbose : Bool)

theorem validate_aloud : (k.aloud verbose).validate t = (k.validate t).aloud verbose := by
  have hi : (k.aloud verbose).includes = k.includes := rfl
  unfold validate
  rw [hi]
  cases checkDirectories t k.includes <;> rfl

theorem load_aloud : (k.aloud verbose).load t = (k.load t).aloud verbose := by
  unfold load
  dsimp only [aloud]
  cases (Composition.build t k.includes k.input .empty).result <;> rfl

theorem render_aloud : (k.aloud verbose).render t = (k.render t).aloud verbose := by
  cases h : k.schema with
  | some s =>
      rw [render_of_some t h, render_of_some t (k := k.aloud verbose) h]
      rfl
  | none =>
      rw [render_of_none t h, render_of_none t (k := k.aloud verbose) h, load_aloud]
      rfl

end Verbosity

end Converter

end ProtoBundle
