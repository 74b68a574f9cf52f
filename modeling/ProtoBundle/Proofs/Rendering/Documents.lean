import ProtoBundle.Proofs.Rendering.Enclosure
import ProtoBundle.Proofs.Schema.Floats

namespace ProtoBundle.Rendering

open Json (Layout)
open Number (Binary64)
open Source (Terminal Tree)

theorem isText_string (j : Json) (layout : Layout) :
    Json.IsText (j.string layout ++ "\n").toList ↔ ∀ x ∈ j.floats, x.IsFinite := by
  rw [Json.string, String.toList_append, String.toList_ofList]
  exact Json.isText_write layout 0 j fun c hc => .inr (.inr (.inl (List.mem_singleton.mp hc)))

theorem isText_render {file : Option String} {text : String} {s : Schema} (h : Schema.ofText file text = .ok s)
    {request : Namespace.Request} {layout : Layout} {out : String} (hr : s.render .structural request layout = .ok out) :
    (Json.IsText out.toList ↔ ∀ x ∈ s.document.floats, x.IsFinite) ∧
      ∀ x ∈ s.document.floats, x ≠ .nan ∧ ∃ f l, Source.parse text.toList = .ok f ∧
        (Terminal.float, l) ∈ (Tree.ofFile f).tokens ∧ x = Binary64.ofText l.text.toList := by
  obtain ⟨name, -, -, rfl⟩ := Schema.render_eq_ok_iff.mp hr
  refine ⟨isText_string s.document layout, fun x hx => ?_⟩
  unfold Schema.ofText at h
  split at h
  · rename_i f hf
    obtain ⟨l, hl, rfl⟩ := Schema.carries_ofSource h x hx
    exact ⟨ofText_ne_nan_of_parse hf hl, f, l, hf, hl, rfl⟩
  · cases h

def overflow : String := "option a=1e999;"

def overflowDocument : String :=
  "\x7b\"package\":null,\"options\":\x7b\"a\":Infinity\x7d,\"messages\":[],\"enums\":[],\"imports\":[]," ++
    "\"services\":[]\x7d\n"

theorem not_isText_overflow : ∃ s, Schema.ofText none overflow = .ok s ∧
    s.render .structural .absent .compact = .ok overflowDocument ∧ ¬ Json.IsText overflowDocument.toList := by
  have hr : ((Schema.ofText none overflow).toOption.map fun s =>
      (s.render .structural .absent .compact, s.document.floats)) =
        some (.ok overflowDocument, [.infinite false]) := by decide +kernel
  obtain ⟨s, hs, he⟩ := Option.map_eq_some_iff.mp hr
  obtain ⟨hout, hfloats⟩ := Prod.mk.inj he
  have ht : Schema.ofText none overflow = .ok s := eq_ok_of_toOption hs
  refine ⟨s, ht, hout, fun h => ?_⟩
  exact (isText_render ht hout).1.mp h (.infinite false) (by rw [hfloats]; exact List.mem_singleton_self _)

end ProtoBundle.Rendering
