import ProtoBundle.Proofs.Json.Restoration
import ProtoBundle.Render

namespace ProtoBundle

open Json (Layout)

namespace Text

theorem joinStrings_singleton (sep piece : String) : joinStrings sep [piece] = piece :=
  String.ofList_toList

theorem joinStrings_cons (sep piece : String) {pieces : List String} (h : pieces ≠ []) :
    joinStrings sep (piece :: pieces) = piece ++ sep ++ joinStrings sep pieces := by
  cases pieces with
  | nil => exact absurd rfl h
  | cons second pieces => simp [joinStrings, join, String.append_assoc]

theorem joinStrings_concat (sep last : String) {pieces : List String} (h : pieces ≠ []) :
    joinStrings sep (pieces ++ [last]) = joinStrings sep pieces ++ sep ++ last := by
  induction pieces with
  | nil => exact absurd rfl h
  | cons piece pieces ih =>
      by_cases hp : pieces = []
      · rw [hp, List.singleton_append, joinStrings_cons sep piece (by simp), joinStrings_singleton,
          joinStrings_singleton]
      · rw [List.cons_append, joinStrings_cons sep piece (by simp), ih hp, joinStrings_cons sep piece hp]
        simp only [String.append_assoc]

end Text

namespace Script

def Encloses (text : String → String) : Prop :=
  ∃ front back, ∀ literal, text literal = front ++ literal ++ back

section Enclosing

variable {text : String → String}

theorem encloses_id : Encloses fun literal => literal :=
  ⟨"", "", fun literal => by simp⟩

theorem Encloses.front (h : Encloses text) (s : String) : Encloses fun literal => s ++ text literal := by
  obtain ⟨front, back, ht⟩ := h
  exact ⟨s ++ front, back, fun literal => by simp only [ht, String.append_assoc]⟩

theorem Encloses.back (h : Encloses text) (s : String) : Encloses fun literal => text literal ++ s := by
  obtain ⟨front, back, ht⟩ := h
  exact ⟨front, back ++ s, fun literal => by simp only [ht, String.append_assoc]⟩

theorem Encloses.joinStrings (h : Encloses text) (sep : String) (before after : List String) :
    Encloses fun literal => Text.joinStrings sep (before ++ text literal :: after) := by
  induction before with
  | nil =>
      by_cases ha : after = []
      · simpa only [List.nil_append, ha, Text.joinStrings_singleton] using h
      · simpa only [List.nil_append, Text.joinStrings_cons sep _ ha] using (h.back sep).back _
  | cons piece before ih =>
      have hne : ∀ literal, before ++ text literal :: after ≠ [] := by simp
      simpa only [List.cons_append, Text.joinStrings_cons sep piece (hne _)] using ih.front (piece ++ sep)

theorem Encloses.textOfLines (h : Encloses text) (layout : Layout) (before after : List String) :
    Encloses fun literal => Script.textOfLines layout (before ++ text literal :: after) := by
  cases layout with
  | pretty => exact (h.joinStrings "\n" before after).back "\n"
  | compact => exact (h.joinStrings "" before after).back "\n"

end Enclosing

theorem encloses_builder (library : String) (name : Option String) :
    Encloses fun literal => builder library literal name :=
  (((encloses_id.front _).back _).back _).back _

theorem encloses_assignment_built {built : String → String} (h : Encloses built) (layout : Layout) (declared : Bool)
    (target : List String) :
    Encloses fun literal => Assignment.text layout (built literal) ⟨declared, target, .built⟩ :=
  (h.front _).back _

theorem assignment_keptOrEmpty (layout : Layout) (built other : String) {a : Assignment}
    (h : a.assigned = .keptOrEmpty) : a.text layout built = a.text layout other := by
  simp only [Assignment.text, h]

theorem bindings_eq_append (done : List String) {segments : List String} (h : segments ≠ []) :
    ∃ before declared target, bindings done segments = before ++ [⟨declared, target, .built⟩] ∧
      ∀ a ∈ before, a.assigned = .keptOrEmpty := by
  induction segments generalizing done with
  | nil => exact absurd rfl h
  | cons segment rest ih =>
      cases rest with
      | nil => exact ⟨[], done.isEmpty, done ++ [segment], rfl, by simp⟩
      | cons second rest =>
          obtain ⟨before, declared, target, hb, hk⟩ := ih (done ++ [segment]) (by simp)
          refine ⟨⟨done.isEmpty, done ++ [segment], .keptOrEmpty⟩ :: before, declared, target, ?_, ?_⟩
          · rw [bindings, hb, List.cons_append]
            simp
          · intro a ha
            rcases List.mem_cons.mp ha with rfl | ha
            · rfl
            · exact hk a ha

theorem segments_ne_nil (name : String) : segments name ≠ [] := by
  unfold segments
  split <;> simp [Text.splitOn_ne_nil]

theorem globalBindings_eq_append (name : Option String) :
    ∃ before declared target, globalBindings name = before ++ [⟨declared, target, .built⟩] ∧
      ∀ a ∈ before, a.assigned = .keptOrEmpty := by
  cases name with
  | none => exact ⟨[], true, ["_root"], rfl, by simp⟩
  | some name => exact bindings_eq_append [] (segments_ne_nil name)

theorem encloses_global (layout : Layout) (name : Option String) :
    Encloses fun literal => global layout literal name := by
  obtain ⟨before, declared, target, hb, hk⟩ := globalBindings_eq_append name
  have hk : ∀ built, before.map (Assignment.text layout built) = before.map (Assignment.text layout "") :=
    fun built => List.map_congr_left fun a ha => assignment_keptOrEmpty layout built "" (hk a ha)
  have h := encloses_assignment_built (encloses_builder globalLibrary name) layout declared target
  simpa only [global, hb, List.map_append, List.map_cons, List.map_nil, hk] using
    h.textOfLines layout (before.map (Assignment.text layout "")) []

theorem encloses_exported (layout : Layout) (name : Option String) :
    Encloses fun literal => exported layout literal name :=
  (encloses_assignment_built (encloses_builder requiredLibrary name) layout false ["module", "exports"]).textOfLines
    layout [] []

theorem encloses_defined (layout : Layout) (name : Option String) :
    Encloses fun literal => defined layout literal name := by
  have h := encloses_builder dependency name
  cases layout with
  | compact => exact (((((h.front _).back _).joinStrings "," _ []).front _).back _)
  | pretty => exact ((h.front _).back _).textOfLines .pretty [_] [_]

end Script

theorem Convention.encloses_wrap (c : Convention) (layout : Layout) (name : Option String) :
    ∃ front back, (c = .structural → front = "" ∧ back = "\n") ∧
      ∀ literal, c.wrap layout literal name = front ++ literal ++ back := by
  cases c with
  | structural => exact ⟨"", "\n", fun _ => ⟨rfl, rfl⟩, fun literal => by simp [wrap]⟩
  | global =>
      obtain ⟨front, back, h⟩ := Script.encloses_global layout name
      exact ⟨front, back, by simp, h⟩
  | exported =>
      obtain ⟨front, back, h⟩ := Script.encloses_exported layout name
      exact ⟨front, back, by simp, h⟩
  | defined =>
      obtain ⟨front, back, h⟩ := Script.encloses_defined layout name
      exact ⟨front, back, by simp, h⟩

namespace Schema

def scope (s : Schema) (c : Convention) (request : Namespace.Request) : Except Failure (Option String) :=
  if c = .structural then .ok none else Namespace.resolve s request

theorem render_eq (s : Schema) (c : Convention) (request : Namespace.Request) (layout : Layout) :
    s.render c request layout = (s.scope c request).bind fun name =>
      if s.document.writable then .ok (c.wrap layout (s.document.string layout) name)
      else .error .integerTooLong := by
  have hl : ∀ name, (s.literal layout).bind (fun literal => .ok (c.wrap layout literal name)) =
      if s.document.writable then .ok (c.wrap layout (s.document.string layout) name)
      else .error .integerTooLong := by
    intro name
    unfold literal
    split <;> rfl
  unfold render scope
  split
  · exact hl none
  · exact congrArg _ (funext hl)

theorem render_eq_ok_iff {s : Schema} {c : Convention} {request : Namespace.Request} {layout : Layout}
    {text : String} :
    s.render c request layout = .ok text ↔
      ∃ name, s.scope c request = .ok name ∧ s.document.writable = true ∧
        c.wrap layout (s.document.string layout) name = text := by
  rw [render_eq]
  cases s.scope c request with
  | error e => simp [Except.bind]
  | ok name => cases hw : s.document.writable <;> simp [Except.bind]

theorem isNumber_document (s : Schema) : s.document.isNumber = false := by
  cases s
  rfl

theorem render_restores :
    ∃ front back : Convention → Layout → Option String → String,
      (∀ layout name, front .structural layout name = "" ∧ back .structural layout name = "\n") ∧
      ∀ (s : Schema) (c : Convention) (request : Namespace.Request) (layout : Layout) (text : String),
        s.render c request layout = .ok text →
          ∃ name literal, s.scope c request = .ok name ∧
            text = front c layout name ++ literal ++ back c layout name ∧
            ∀ rest, Json.read (literal.toList ++ rest) = some (s.document.datum, rest) := by
  choose front back hs hw using Convention.encloses_wrap
  refine ⟨front, back, fun layout name => hs .structural layout name rfl, ?_⟩
  intro s c request layout text h
  obtain ⟨name, hn, -, rfl⟩ := render_eq_ok_iff.mp h
  refine ⟨name, s.document.string layout, hn, hw c layout name _, fun rest => ?_⟩
  rw [Json.string, String.toList_ofList]
  refine Json.read_write layout 0 fun hnum => ?_
  rw [isNumber_document] at hnum
  cases hnum

def quoting : Schema := ⟨⟨none, none, none, [("a", .text "\");\\")], [], [], []⟩, []⟩

def quotingModule : String :=
  "module.exports=require(\"protobufjs\").newBuilder(\x7b\x7d)['import'](" ++
    "\x7b\"package\":null,\"options\":\x7b\"a\":\"\\\");\\\\\"\x7d,\"messages\":[]," ++
    "\"enums\":[],\"imports\":[],\"services\":[]\x7d).build();\n"

theorem render_restores_quoting :
    quoting.render .exported .absent .compact = .ok quotingModule ∧
    ∃ front back : Convention → Layout → Option String → String, ∃ name literal,
      quotingModule = front .exported .compact name ++ literal ++ back .exported .compact name ∧
      ∀ rest, Json.read (literal.toList ++ rest) = some (quoting.document.datum, rest) := by
  have hr : quoting.render .exported .absent .compact = .ok quotingModule := by decide +kernel
  obtain ⟨front, back, -, h⟩ := render_restores
  obtain ⟨name, literal, -, ht, hl⟩ := h quoting .exported .absent .compact quotingModule hr
  exact ⟨hr, front, back, name, literal, ht, hl⟩

end Schema

end ProtoBundle
