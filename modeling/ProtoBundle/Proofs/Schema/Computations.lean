import Mathlib.Data.List.Forall2
import ProtoBundle.Schema.OfSource

namespace ProtoBundle

variable {ε α β : Type}

theorem exists_of_map_eq_ok {x : Except ε α} {f : α → β} {b : β} (h : x.map f = .ok b) : ∃ a, x = .ok a ∧ f a = b := by
  cases x with
  | error e => cases h
  | ok a =>
      cases h
      exact ⟨a, rfl, rfl⟩

theorem eq_error_of_map {x : Except ε α} {f : α → β} {e : ε} (h : x.map f = .error e) : x = .error e := by
  cases x with
  | error e => exact congrArg Except.error (Except.error.inj h)
  | ok a => cases h

theorem exists_of_bind_eq_ok {x : Except ε α} {f : α → Except ε β} {b : β} (h : x >>= f = .ok b) :
    ∃ a, x = .ok a ∧ f a = .ok b := by
  cases x with
  | error e => cases h
  | ok a => exact ⟨a, rfl, h⟩

theorem eq_ok_of_toOption {x : Except ε α} {a : α} (h : x.toOption = some a) : x = .ok a := by
  cases x with
  | error e => cases h
  | ok b => exact congrArg Except.ok (Option.some.inj h)

theorem exists_of_isOk {x : Except ε α} (h : x.isOk = true) : ∃ a, x = .ok a := by
  cases x with
  | error e => cases h
  | ok a => exact ⟨a, rfl⟩

theorem mapM_eq_ok_iff {f : α → Except ε β} {xs : List α} {ys : List β} :
    xs.mapM f = .ok ys ↔ List.Forall₂ (fun x y => f x = .ok y) xs ys := by
  induction xs generalizing ys with
  | nil =>
      rw [List.mapM_nil]
      constructor
      · rintro ⟨⟩
        exact .nil
      · rintro ⟨⟩
        rfl
  | cons x xs ih =>
      rw [List.mapM_cons]
      constructor
      · intro h
        obtain ⟨y, hy, h⟩ := exists_of_bind_eq_ok h
        obtain ⟨ys, hys, h⟩ := exists_of_bind_eq_ok h
        cases h
        exact .cons hy (ih.mp hys)
      · rintro ⟨⟩
        rename_i y ys hy hys
        rw [hy, ih.mpr hys]
        rfl

theorem exists_mem_of_forall₂ {R : α → β → Prop} {xs : List α} {ys : List β} (h : List.Forall₂ R xs ys) {y : β}
    (hy : y ∈ ys) : ∃ x ∈ xs, R x y := by
  induction h with
  | nil => cases hy
  | cons hx _ ih =>
      rcases List.mem_cons.mp hy with rfl | hy
      · exact ⟨_, List.mem_cons_self, hx⟩
      · obtain ⟨x, hx, hr⟩ := ih hy
        exact ⟨x, List.mem_cons_of_mem _ hx, hr⟩

theorem exists_mem_of_mapM {f : α → Except ε β} {xs : List α} {ys : List β} (h : xs.mapM f = .ok ys) {y : β}
    (hy : y ∈ ys) : ∃ x ∈ xs, f x = .ok y :=
  exists_mem_of_forall₂ (mapM_eq_ok_iff.mp h) hy

theorem forall_mem_selected {π α : Type} {P : π → Prop} {Q : α → Prop} {select : π → Option α} {parts : List π}
    (h : ∀ p ∈ parts, P p) (hs : ∀ p a, P p → select p = some a → Q a) : ∀ a ∈ parts.filterMap select, Q a :=
  List.forall_mem_filterMap.mpr fun p hp a ha => hs p a (h p hp) ha

theorem forall₂_selected {π τ γ : Type} {R : α → π → Prop} {Q : τ → γ → Prop} {share : α → List τ}
    {select : π → Option γ} {xs : List α} {parts : List π} (hp : List.Forall₂ R xs parts)
    (h : ∀ x p, R x p → List.Forall₂ Q (share x) (select p).toList) :
    List.Forall₂ Q (xs.flatMap share) (parts.filterMap select) := by
  rw [List.filterMap_eq_flatMap_toList]
  exact List.rel_flatMap hp h

theorem mapM_congr_of_forall₂ {γ : Type} {f : α → Except ε γ} {g : β → Except ε γ} {xs : List α} {ys : List β}
    (h : List.Forall₂ (fun x y => f x = g y) xs ys) : xs.mapM f = ys.mapM g := by
  induction h with
  | nil => rfl
  | cons hx _ ih => rw [List.mapM_cons, List.mapM_cons, hx, ih]

theorem exists_of_numbered {settings : Option (List Source.Setting)} {l : Source.Lexeme} {construct : Source.Construct}
    {make : Options → Int → α} {a : α}
    (h : (do
      let options ← Options.ofSettings settings
      let number ← l.integer construct
      return make options number) = Except.ok a) :
    ∃ options number, Options.ofSettings settings = .ok options ∧ l.integer construct = .ok number ∧
      make options number = a := by
  obtain ⟨options, ho, h⟩ := exists_of_bind_eq_ok h
  obtain ⟨number, hn, h⟩ := exists_of_bind_eq_ok h
  cases h
  exact ⟨options, number, ho, hn, rfl⟩

theorem Message.parts_eq_mapM (items : List Source.MessageItem) :
    Message.part.parts items = items.mapM Message.part := by
  induction items with
  | nil => rfl
  | cons item items ih => rw [Message.part.parts, List.mapM_cons, ih]

theorem Message.part_ofMessage (m : Source.Message) :
    Message.part (.ofMessage m) = (Message.ofSource m).map .message := by
  rw [Source.MessageItem.ofMessage, Message.part, Message.ofSource]
  cases Message.part.parts m.items <;> rfl

theorem Schema.exists_parts_of_ofText {file : Option String} {text : String} {s : Schema}
    (h : Schema.ofText file text = .ok s) :
    ∃ source parts, Source.parse text.toList = .ok source ∧ source.statements.mapM Schema.part = .ok parts ∧
      Schema.ofParts file parts = s := by
  unfold Schema.ofText at h
  split at h
  · rename_i source hsource
    obtain ⟨parts, hp, hs⟩ := exists_of_map_eq_ok h
    exact ⟨source, parts, hsource, hp, hs⟩
  · cases h

end ProtoBundle
