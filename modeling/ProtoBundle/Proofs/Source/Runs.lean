import Mathlib.Data.List.Basic
import ProtoBundle.Proofs.Source.Reading
import ProtoBundle.Source.Parse

/-!
How far readings get. In the rules of the language nothing is repeated that may take no characters, so that neither
the number of repetitions nor the depth of messages that a run allows for has any influence on it, as long as the
text is no longer.
-/

namespace ProtoBundle.Source

variable {ρ α β : Type}

def Terminal.isListed : Terminal → Bool
  | .word w => vocabulary.contains w
  | _ => true

theorem Terminal.listed_of_isListed {t : Terminal} (h : t.isListed = true) : t.Listed := by
  cases t with
  | word w => exact List.contains_iff_mem.mp h
  | _ => trivial

namespace Grammar

def consumes : {α : Type} → Grammar ρ α → Bool
  | _, .terminal _ => true
  | _, .self => true
  | _, .both a b => a.consumes || b.consumes
  | _, .either a b => a.consumes && b.consumes
  | _, .optional _ => false
  | _, .many _ => false
  | _, .map _ a => a.consumes

def isSound : {α : Type} → Grammar ρ α → Bool
  | _, .terminal t => t.isListed
  | _, .self => true
  | _, .both a b => a.isSound && b.isSound
  | _, .either a b => a.isSound && b.isSound
  | _, .optional a => a.isSound
  | _, .many a => a.consumes && a.isSound
  | _, .map _ a => a.isSound

end Grammar

def Shortens (run : Cursor → Reading α) : Prop := ∀ c, ∀ r ∈ run c, r.2.rest.length < c.rest.length

section Repetition

variable {item item' : Cursor → Reading α}

theorem length_repeated (h : ∀ c, ∀ r ∈ item c, r.2.rest.length ≤ c.rest.length) {fuel : Nat} {c : Cursor} :
    ∀ r ∈ repeated item fuel c, r.2.rest.length ≤ c.rest.length := by
  rintro ⟨vs, d⟩ hr
  induction fuel generalizing c vs with
  | zero =>
      cases List.mem_singleton.mp hr
      exact Nat.le_refl _
  | succ fuel ih =>
      rcases Reads.mem_repeated_succ.mp hr with ⟨v, m, ws, hm, hw, -⟩ | ⟨-, rfl⟩
      · exact Nat.le_trans (ih ws hw) (h c _ ((firstPerEnd_sublist _).subset hm))
      · exact Nat.le_refl _

theorem eq_nil_of_shortens (h : Shortens item) {c : Cursor} (hc : c.rest.length ≤ 0) : item c = [] :=
  List.eq_nil_iff_forall_not_mem.mpr fun r hr => absurd (h c r hr) (by omega)

theorem repeated_fuel (h : Shortens item) {m n : Nat} {c : Cursor} (hm : c.rest.length ≤ m)
    (hn : c.rest.length ≤ n) : repeated item m c = repeated item n c := by
  induction m generalizing n c with
  | zero =>
      cases n with
      | zero => rfl
      | succ n =>
          rw [repeated, repeated, eq_nil_of_shortens h hm]
          rfl
  | succ m ih =>
      cases n with
      | zero =>
          rw [repeated, repeated, eq_nil_of_shortens h hn]
          rfl
      | succ n =>
          rw [repeated, repeated]
          congr 1
          refine List.flatMap_congr fun r hr => ?_
          have hlt := h c r ((firstPerEnd_sublist _).subset hr)
          have he : repeated item m r.2 = repeated item n r.2 := ih (by omega) (by omega)
          rw [he]

theorem repeated_congr {bound : Nat} (hl : ∀ c, ∀ r ∈ item c, r.2.rest.length ≤ c.rest.length)
    (h : ∀ c, c.rest.length ≤ bound → item c = item' c) (fuel : Nat) {c : Cursor} (hc : c.rest.length ≤ bound) :
    repeated item fuel c = repeated item' fuel c := by
  induction fuel generalizing c with
  | zero => rfl
  | succ fuel ih =>
      rw [repeated, repeated, ← h c hc]
      congr 1
      refine List.flatMap_congr fun r hr => ?_
      rw [ih (Nat.le_trans (hl c r ((firstPerEnd_sublist _).subset hr)) hc)]

end Repetition

section Runs

variable {self self' : Cursor → Reading ρ}

theorem Grammar.length_run (hself : Shortens self) (g : Grammar ρ α) (hs : g.isSound = true) (c : Cursor)
    (r : α × Cursor) (hr : r ∈ g.run self c) :
    r.2.rest.length ≤ c.rest.length ∧ (g.consumes = true → r.2.rest.length < c.rest.length) := by
  induction g generalizing c with
  | terminal t =>
      have hlt := Terminal.length_lt_of_read (Terminal.listed_of_isListed hs) (Reads.mem_run_terminal.mp hr)
      exact ⟨Nat.le_of_lt hlt, fun _ => hlt⟩
  | self =>
      have hlt := hself c _ hr
      exact ⟨Nat.le_of_lt hlt, fun _ => hlt⟩
  | both a b iha ihb =>
      rw [isSound, Bool.and_eq_true] at hs
      obtain ⟨m, hm, hd⟩ := Reads.mem_run_both.mp hr
      obtain ⟨hle, hlt⟩ := iha hs.1 c _ hm
      obtain ⟨hle', hlt'⟩ := ihb hs.2 m _ hd
      refine ⟨Nat.le_trans hle' hle, fun hc => ?_⟩
      rw [consumes, Bool.or_eq_true] at hc
      rcases hc with hc | hc
      · exact Nat.lt_of_le_of_lt hle' (hlt hc)
      · exact Nat.lt_of_lt_of_le (hlt' hc) hle
  | either a b iha ihb =>
      rw [isSound, Bool.and_eq_true] at hs
      rw [consumes, Bool.and_eq_true]
      rcases List.mem_append.mp hr with hr | hr
      · obtain ⟨hle, hlt⟩ := iha hs.1 c r hr
        exact ⟨hle, fun hc => hlt hc.1⟩
      · obtain ⟨hle, hlt⟩ := ihb hs.2 c r hr
        exact ⟨hle, fun hc => hlt hc.2⟩
  | optional a ih =>
      refine ⟨?_, nofun⟩
      rcases List.mem_append.mp hr with hr | hr
      · obtain ⟨q, hq, rfl⟩ := List.mem_map.mp hr
        exact (ih hs c q hq).1
      · cases List.mem_singleton.mp hr
        exact Nat.le_refl _
  | many a ih =>
      rw [isSound, Bool.and_eq_true] at hs
      exact ⟨length_repeated (fun c r hr => (ih hs.2 c r hr).1) _ hr, nofun⟩
  | map f a ih =>
      obtain ⟨q, hq, rfl⟩ := List.mem_map.mp hr
      exact ih hs c q hq

theorem Grammar.shortens_run (hself : Shortens self) {g : Grammar ρ α} (hs : g.isSound = true)
    (hc : g.consumes = true) : Shortens (g.run self) := fun c r hr => (g.length_run hself hs c r hr).2 hc

theorem Grammar.run_many (hself : Shortens self) {g : Grammar ρ α} (hs : g.isSound = true) (hc : g.consumes = true)
    (c : Cursor) :
    (many g).run self c =
      (firstPerEnd (g.run self c)).flatMap (fun r => ((many g).run self r.2).map fun s => (r.1 :: s.1, s.2)) ++
        [([], c)] := by
  have hshort := g.shortens_run hself hs hc
  rw [run, repeated_fuel hshort (Nat.le_refl _) (Nat.le_succ _), repeated]
  congr 1
  refine List.flatMap_congr fun r hr => ?_
  have hlt := hshort c r ((firstPerEnd_sublist _).subset hr)
  rw [run, repeated_fuel hshort (Nat.le_of_lt hlt) (Nat.le_refl _)]

theorem Grammar.run_congr (hself : Shortens self) {bound : Nat}
    (h : ∀ c, c.rest.length ≤ bound → self c = self' c) (g : Grammar ρ α) (hs : g.isSound = true) {c : Cursor}
    (hc : c.rest.length ≤ bound) : g.run self c = g.run self' c := by
  induction g generalizing c with
  | terminal t => rfl
  | self => exact h c hc
  | both a b iha ihb =>
      rw [isSound, Bool.and_eq_true] at hs
      rw [run, run, ← iha hs.1 hc]
      refine List.flatMap_congr fun r hr => ?_
      rw [ihb hs.2 (Nat.le_trans (a.length_run hself hs.1 c r hr).1 hc)]
  | either a b iha ihb =>
      rw [isSound, Bool.and_eq_true] at hs
      rw [run, run, iha hs.1 hc, ihb hs.2 hc]
  | optional a ih => rw [run, run, ih hs hc]
  | many a ih =>
      rw [isSound, Bool.and_eq_true] at hs
      exact repeated_congr (fun c r hr => (a.length_run hself hs.2 c r hr).1) (fun c hc => ih hs.2 hc) _ hc
  | map f a ih => rw [run, run, ih hs hc]

end Runs

section Messages

theorem Rules.isSound_message : Rules.message.isSound = true := by decide

theorem Rules.isSound_file : Rules.file.isSound = true := by decide

theorem shortens_messageAt (depth : Nat) : Shortens (messageAt depth) := by
  induction depth with
  | zero => exact fun c r hr => absurd hr List.not_mem_nil
  | succ depth ih => exact Grammar.shortens_run ih Rules.isSound_message rfl

theorem Grammar.run_after_congr {self self' : Cursor → Reading ρ} (hself : Shortens self) {bound : Nat}
    (h : ∀ c, c.rest.length ≤ bound → self c = self' c) {w : String} (hw : vocabulary.contains w = true)
    (g : Grammar ρ α) (hs : g.isSound = true) {c : Cursor} (hc : c.rest.length ≤ bound + 1) :
    (after w g).run self c = (after w g).run self' c := by
  have hword : (word w).run self c = (word w).run self' c := rfl
  rw [after, run, run, run, run, ← hword]
  congr 1
  refine List.flatMap_congr fun r hr => ?_
  have hlt := (word w).length_run hself hw c r hr
  rw [g.run_congr hself h hs (Nat.le_of_lt_succ (Nat.lt_of_lt_of_le (hlt.2 rfl) hc))]

theorem messageAt_depth {m n : Nat} {c : Cursor} (hm : c.rest.length ≤ m) (hn : c.rest.length ≤ n) :
    messageAt m c = messageAt n c := by
  induction m generalizing n c with
  | zero => rw [eq_nil_of_shortens (shortens_messageAt 0) hm, eq_nil_of_shortens (shortens_messageAt n) hm]
  | succ m ih =>
      cases n with
      | zero => rw [eq_nil_of_shortens (shortens_messageAt _) hn, eq_nil_of_shortens (shortens_messageAt 0) hn]
      | succ n =>
          have hrest : ∀ c : Cursor, c.rest.length ≤ min m n → messageAt m c = messageAt n c :=
            fun c hc => ih (Nat.le_trans hc (Nat.min_le_left m n)) (Nat.le_trans hc (Nat.min_le_right m n))
          rw [messageAt, messageAt, Rules.message, Grammar.run, Grammar.run, Rules.block,
            Grammar.run_after_congr (shortens_messageAt m) hrest (by decide) _ (by decide) (by omega)]

def messages (c : Cursor) : Reading Message := messageAt c.rest.length c

theorem shortens_messages : Shortens messages := fun c => shortens_messageAt _ c

theorem messages_eq (c : Cursor) : messages c = Rules.message.run messages c := by
  rw [messages, messageAt_depth (Nat.le_refl _) (Nat.le_succ _), messageAt]
  exact Rules.message.run_congr (shortens_messageAt _) (fun d hd => messageAt_depth hd (Nat.le_refl _))
    Rules.isSound_message (Nat.le_refl c.rest.length)

theorem readings_eq (text : List Char) : readings text = Rules.file.run messages (.start text) := by
  unfold readings
  exact Rules.file.run_congr (shortens_messageAt _) (fun d hd => messageAt_depth hd (Nat.le_refl _))
    Rules.isSound_file (Nat.le_refl text.length)

end Messages

end ProtoBundle.Source
