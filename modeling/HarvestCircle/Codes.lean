import Mathlib.Data.Set.Function

/-! # Uniquely parseable codes

A program that identifies a record by a hash feeds the hash function one field after
the other, with nothing in between.  `Parses code s` says that such a string can be read
back: whoever finds the code of a member of `s` at the front of a string knows which
member it is and where its code ends.  Fields of one width, fields that write their
length or end with a mark, flagged options and counted lists all have this property, so
a string made of them determines every one of them.

Where a field is itself a digest, reading it back takes two steps: the digest is a field
of one width, and it stands for the string it was taken of unless two of the strings
hashed on the way collide (`Collides`).
-/
namespace Codes
variable {α β γ δ : Type} {code : α → List β} {s : Set α}

/-- A member of `s` can be told from the front of a string, and so can what follows it. -/
def Parses (code : α → List β) (s : Set α) : Prop :=
  ∀ ⦃a⦄, a ∈ s → ∀ ⦃b⦄, b ∈ s → ∀ ⦃r t : List β⦄, code a ++ r = code b ++ t → a = b ∧ r = t

namespace Parses

theorem inj_of_mem (h : Parses code s) {a b : α} (ha : a ∈ s) (hb : b ∈ s) {r t : List β} :
    code a ++ r = code b ++ t ↔ a = b ∧ r = t := by
  constructor
  · exact fun he => h ha hb he
  · rintro ⟨rfl, rfl⟩
    rfl

theorem append_inj (h : Parses code Set.univ) {a b : α} {r t : List β} :
    code a ++ r = code b ++ t ↔ a = b ∧ r = t :=
  h.inj_of_mem (Set.mem_univ a) (Set.mem_univ b)

theorem injOn (h : Parses code s) : Set.InjOn code s := fun a ha b hb he =>
  (h ha hb (r := []) (t := []) (by rw [he])).1

theorem mono (h : Parses code s) {u : Set α} (hu : u ⊆ s) : Parses code u :=
  fun _ ha _ hb _ _ he => h (hu ha) (hu hb) he

/-- The code of a part is a code of the whole where the part tells the whole. -/
theorem comp (h : Parses code s) {f : γ → α} {u : Set γ} (hf : Set.InjOn f u)
    (hu : ∀ c ∈ u, f c ∈ s) : Parses (fun c => code (f c)) u := by
  intro c hc d hd r t he
  obtain ⟨hcd, hrt⟩ := h (hu c hc) (hu d hd) he
  exact ⟨hf hc hd hcd, hrt⟩

/-- Fields of one width. -/
theorem of_length {width : Nat} (hlength : ∀ a ∈ s, (code a).length = width)
    (hinj : Set.InjOn code s) : Parses code s := by
  intro a ha b hb r t he
  have hlen : (code a).length = (code b).length := by rw [hlength a ha, hlength b hb]
  obtain ⟨hab, hrt⟩ := List.append_inj he hlen
  exact ⟨hinj ha hb hab, hrt⟩

end Parses

/-! ## Strings that say where they end -/

/-- A string with its length written in front. -/
def sized (size : Nat → List β) (l : List β) : List β := size l.length ++ l

theorem parses_sized {size : Nat → List β} {lengths : Set Nat} (h : Parses size lengths) :
    Parses (sized size) { l | l.length ∈ lengths } := by
  intro a ha b hb r t he
  rw [sized, sized, List.append_assoc, List.append_assoc] at he
  obtain ⟨hlen, hrest⟩ := h ha hb he
  exact List.append_inj hrest hlen

/-- A word followed by a mark that it does not contain. -/
def Terminated (mark : β) (l : List β) : Prop := ∃ word, mark ∉ word ∧ l = word ++ [mark]

theorem terminated_iff {mark : β} {l : List β} :
    Terminated mark l ↔ l.getLast? = some mark ∧ mark ∉ l.dropLast := by
  constructor
  · rintro ⟨word, hword, rfl⟩
    simpa using hword
  · rintro ⟨hlast, hword⟩
    obtain ⟨word, rfl⟩ := List.getLast?_eq_some_iff.mp hlast
    exact ⟨word, by simpa using hword, rfl⟩

instance [DecidableEq β] (mark : β) : DecidablePred (Terminated mark) := fun _ =>
  decidable_of_iff _ terminated_iff.symm

theorem parses_terminated (mark : β) : Parses id { l : List β | Terminated mark l } := by
  rintro _ ⟨word, hword, rfl⟩ _ ⟨word', hword', rfl⟩ r t he
  simp only [id_eq, List.append_assoc, List.singleton_append] at he ⊢
  -- both words end at the first mark
  induction word generalizing word' with
  | nil =>
    cases word' with
    | nil => exact ⟨rfl, (List.cons.inj he).2⟩
    | cons c word' => exact absurd (by simp [(List.cons.inj he).1]) hword'
  | cons b word ih =>
    cases word' with
    | nil => exact absurd (by simp [← (List.cons.inj he).1]) hword
    | cons c word' =>
      obtain ⟨rfl, hrest⟩ := List.cons.inj he
      obtain ⟨hword, hrt⟩ :=
        ih (fun h => hword (.tail _ h)) word' (fun h => hword' (.tail _ h)) hrest
      exact ⟨by rw [List.cons_append, hword, List.cons_append], hrt⟩

/-! ## Options and lists -/

/-- A flag, and the value if there is one. -/
def flagged (no yes : β) (code : α → List β) : Option α → List β
  | none => [no]
  | some a => yes :: code a

theorem Parses.flagged {no yes : β} (hne : no ≠ yes) (h : Parses code s) :
    Parses (flagged no yes code) { o | ∀ a ∈ o, a ∈ s } := by
  rintro (_ | a) ha (_ | b) hb r t he
  · exact ⟨rfl, (List.cons.inj he).2⟩
  · exact absurd (List.cons.inj he).1 hne
  · exact absurd (List.cons.inj he).1.symm hne
  · obtain ⟨rfl, hrt⟩ := h (ha a rfl) (hb b rfl) (List.cons.inj he).2
    exact ⟨rfl, hrt⟩

/-- Equally many codes in a row. -/
theorem Parses.flatMap (h : Parses code s) {l l' : List α} (hl : ∀ a ∈ l, a ∈ s)
    (hl' : ∀ a ∈ l', a ∈ s) (hlen : l.length = l'.length) {r t : List β}
    (he : l.flatMap code ++ r = l'.flatMap code ++ t) : l = l' ∧ r = t := by
  induction l generalizing l' with
  | nil =>
    obtain rfl := List.length_eq_zero_iff.mp hlen.symm
    exact ⟨rfl, he⟩
  | cons a l ih =>
    cases l' with
    | nil => simp at hlen
    | cons b l' =>
      simp only [List.flatMap_cons, List.append_assoc] at he
      obtain ⟨rfl, hrest⟩ := h (hl a (.head _)) (hl' b (.head _)) he
      obtain ⟨rfl, hrt⟩ := ih (fun a ha => hl a (.tail _ ha)) (fun a ha => hl' a (.tail _ ha))
        (Nat.succ.inj hlen) hrest
      exact ⟨rfl, hrt⟩

/-- The number of entries, and the entries. -/
def counted (count : Nat → List β) (code : α → List β) (l : List α) : List β :=
  count l.length ++ l.flatMap code

theorem Parses.counted {count : Nat → List β} {lengths : Set Nat} (hcount : Parses count lengths)
    (h : Parses code s) :
    Parses (counted count code) { l | l.length ∈ lengths ∧ ∀ a ∈ l, a ∈ s } := by
  rintro l ⟨hlength, hl⟩ l' ⟨hlength', hl'⟩ r t he
  rw [Codes.counted, Codes.counted, List.append_assoc, List.append_assoc] at he
  obtain ⟨hlen, hrest⟩ := hcount hlength hlength' he
  exact h.flatMap hl hl' hlen hrest

/-! ## Digests -/

/-- Two different strings of `hashed` have one digest. -/
def Collides (digest : List β → δ) (hashed : List (List β)) : Prop :=
  ∃ a ∈ hashed, ∃ b ∈ hashed, a ≠ b ∧ digest a = digest b

/-- Without a collision a digest tells its string. -/
theorem injOn_digest {digest : List β → δ} {hashed : List (List β)}
    (h : ¬ Collides digest hashed) : Set.InjOn digest { a | a ∈ hashed } := by
  intro a ha b hb he
  by_contra hab
  exact h ⟨a, ha, b, hb, hab, he⟩

end Codes
