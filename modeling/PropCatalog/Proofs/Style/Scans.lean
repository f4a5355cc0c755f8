import PropCatalog.Proofs.Text.Search
import PropCatalog.Style.Variables

/-!
# Scans — where a scan of a stylesheet finds something

A scan goes from place to place, and over what it finds. This file says what it finds in texts that
are put together, and which texts are names of custom properties.

- `scanAll_append_of_none`, `scanAll_of_some` : the scan goes on behind a text
- `scanAll_eq_nil`    : a text in which nothing is found
- `IsName`, `name?_append` : names, and how far they go
-/

namespace PropCatalog
namespace Style

/-! ## Scanning -/

section Scanning

variable {α : Type} {scan? : List Char → Option (α × List Char)}

theorem scanAll_of_none {c : Char} {rest : List Char} (h : scan? (c :: rest) = none) :
    scanAll scan? (c :: rest) = scanAll scan? rest := by
  rw [scanAll, h]

theorem scanAll_of_some {cs after : List Char} {a : α} (h : scan? cs = some (a, after))
    (hlength : after.length < cs.length) : scanAll scan? cs = a :: scanAll scan? after := by
  cases cs with
  | nil => cases hlength
  | cons c rest =>
    rw [scanAll, h]
    exact dif_pos hlength

/-- Where nothing is found from any place of a text, the scan comes to what follows it. -/
theorem scanAll_append_of_none {cs rest : List Char}
    (h : ∀ s, s ≠ [] → s <:+ cs → scan? (s ++ rest) = none) :
    scanAll scan? (cs ++ rest) = scanAll scan? rest := by
  induction cs with
  | nil => rfl
  | cons c cs ih =>
    have hhead := h (c :: cs) (List.cons_ne_nil c cs) List.suffix_rfl
    rw [List.cons_append] at hhead ⊢
    rw [scanAll_of_none hhead]
    exact ih fun s hne hs => h s hne (hs.trans (List.suffix_cons c cs))

theorem scanAll_eq_nil {cs : List Char} (h : ∀ s, s <:+ cs → scan? s = none) :
    scanAll scan? cs = [] := by
  induction cs with
  | nil => rw [scanAll]
  | cons c cs ih =>
    rw [scanAll_of_none (h (c :: cs) List.suffix_rfl)]
    exact ih fun s hs => h s (hs.trans (List.suffix_cons c cs))

end Scanning

/-! ## Names -/

/-- A name of a custom property. -/
def IsName (name : List Char) : Prop :=
  ∃ part, part ≠ [] ∧ (∀ c ∈ part, isNamePart c = true) ∧ name = '-' :: '-' :: part

theorem IsName.isNamePart_of_mem {name : List Char} (h : IsName name) {c : Char} (hc : c ∈ name) :
    isNamePart c = true := by
  rcases h with ⟨part, -, hpart, rfl⟩
  rcases List.mem_cons.1 hc with rfl | hc
  · rfl
  rcases List.mem_cons.1 hc with rfl | hc
  · rfl
  · exact hpart c hc

/-- A name goes as far as the characters of names do. -/
theorem name?_append {name rest : List Char} (hname : IsName name)
    (hrest : ∀ c ∈ rest.head?, isNamePart c = false) :
    name? (name ++ rest) = some (name, rest) := by
  rcases hname with ⟨part, hne, hpart, rfl⟩
  have hstop : rest.takeWhile isNamePart = [] ∧ rest.dropWhile isNamePart = rest := by
    cases rest with
    | nil => exact ⟨rfl, rfl⟩
    | cons c rest =>
      have hc : isNamePart c = false := hrest c rfl
      simp [hc]
  have htake : (part ++ rest).takeWhile isNamePart = part := by
    rw [List.takeWhile_append_of_pos hpart, hstop.1, List.append_nil]
  have hdrop : (part ++ rest).dropWhile isNamePart = rest := by
    rw [List.dropWhile_append_of_pos hpart, hstop.2]
  simp [name?, htake, hdrop, hne]

theorem of_name?_eq_some {cs name rest : List Char} (h : name? cs = some (name, rest)) :
    IsName name ∧ cs = name ++ rest ∧ ∀ c ∈ rest.head?, isNamePart c = false := by
  unfold name? at h
  split at h
  · rename_i tail
    by_cases hempty : (tail.takeWhile isNamePart).isEmpty = true
    · simp [hempty] at h
    · simp only [hempty, Bool.false_eq_true, if_false, Option.some.injEq, Prod.mk.injEq] at h
      rcases h with ⟨rfl, rfl⟩
      refine ⟨⟨_, fun hnil => hempty (by rw [hnil]; rfl), fun c hc => List.mem_takeWhile_imp hc,
        rfl⟩, ?_, ?_⟩
      · simp
      · intro c hc
        have hne : tail.dropWhile isNamePart ≠ [] := by
          rintro hnil
          rw [hnil] at hc
          cases hc
        have hnot := List.head_dropWhile_not isNamePart hne
        rw [List.head?_eq_some_head hne] at hc
        rw [← Option.some.inj hc]
        exact hnot
  · cases h

end Style
end PropCatalog
