import PropCatalog.Text.Search

/-!
# Brace alternatives

A pattern may offer alternatives in braces, separated by commas. Expansion replaces the leftmost
group that has no brace inside by each of its alternatives, until no such group is left; a brace
without its partner stands for itself.

- `firstGroup?` : the leftmost innermost group, and what stands around it
- `expand`      : all expansions, in the order of the alternatives

Every replacement removes one opening brace, which is why expansion ends.
-/

namespace PropCatalog
namespace Pattern

def openBrace : Char := '\x7b'

def closeBrace : Char := '\x7d'

def isBrace (c : Char) : Bool :=
  c == openBrace || c == closeBrace

/-- A pattern cut at a group: the text before it, inside it and after it. -/
structure Group where
  before : List Char
  body : List Char
  after : List Char
  deriving DecidableEq, Repr

/-- The leftmost group without a brace inside. -/
def firstGroup? : List Char → Option Group
  | [] => none
  | c :: rest =>
    let further := (firstGroup? rest).map fun g => { g with before := c :: g.before }
    if c == openBrace then
      match rest.dropWhile (!isBrace ·) with
      | d :: after =>
        if d == closeBrace then some ⟨[], rest.takeWhile (!isBrace ·), after⟩ else further
      | [] => further
    else further

/-! ## Termination -/

theorem mem_takeWhile_not_isBrace {c : Char} {cs : List Char}
    (h : c ∈ cs.takeWhile (!isBrace ·)) : isBrace c = false := by
  induction cs with
  | nil => simp at h
  | cons d rest ih =>
    rw [List.takeWhile_cons] at h
    split at h
    · rename_i hd
      rcases List.mem_cons.1 h with rfl | h
      · simpa using hd
      · exact ih h
    · simp at h

/-- A group found in a pattern stands there, between braces, and has none inside. -/
theorem firstGroup?_eq_some {cs : List Char} {g : Group} (h : firstGroup? cs = some g) :
    cs = g.before ++ openBrace :: (g.body ++ closeBrace :: g.after) ∧
      ∀ c ∈ g.body, isBrace c = false := by
  induction cs generalizing g with
  | nil => simp [firstGroup?] at h
  | cons c rest ih =>
    have later : ∀ g,
        (firstGroup? rest).map (fun g => { g with before := c :: g.before }) = some g →
        c :: rest = g.before ++ openBrace :: (g.body ++ closeBrace :: g.after) ∧
          ∀ c ∈ g.body, isBrace c = false := by
      intro g hg
      obtain ⟨g', hg', rfl⟩ := Option.map_eq_some_iff.1 hg
      have := ih hg'
      exact ⟨by simp [← this.1], this.2⟩
    rw [firstGroup?] at h
    split at h
    · rename_i hc
      split at h
      · rename_i d after hrest
        split at h
        · rename_i hd
          cases h
          refine ⟨?_, fun c hc => mem_takeWhile_not_isBrace hc⟩
          have hsplit := List.takeWhile_append_dropWhile (p := (!isBrace ·)) (l := rest)
          rw [hrest] at hsplit
          have h₁ : c = openBrace := by simpa using hc
          have h₂ : d = closeBrace := by simpa using hd
          simp [h₁, ← h₂, hsplit]
        · exact later g h
      · exact later g h
    · exact later g h

theorem mem_of_mem_splitAt {sep c : Char} {cs piece : List Char}
    (hp : piece ∈ Text.splitAt sep cs) (hc : c ∈ piece) : c ∈ cs := by
  induction cs generalizing piece with
  | nil => simp_all [Text.splitAt]
  | cons d rest ih =>
    rw [Text.splitAt] at hp
    split at hp
    · rcases List.mem_cons.1 hp with rfl | hp
      · simp at hc
      · exact List.mem_cons_of_mem _ (ih hp hc)
    · cases hs : Text.splitAt sep rest with
      | nil => simp_all [Text.consLine]
      | cons first others =>
        rw [hs, Text.consLine] at hp
        rcases List.mem_cons.1 hp with rfl | hp
        · rcases List.mem_cons.1 hc with rfl | hc
          · simp
          · exact List.mem_cons_of_mem _ (ih (by simp [hs]) hc)
        · exact List.mem_cons_of_mem _ (ih (by simp [hs, hp]) hc)

/-- Replacing a group by one of its alternatives leaves one opening brace less. -/
theorem count_replaceGroup_lt {cs : List Char} {g : Group} (h : firstGroup? cs = some g)
    {option : List Char} (ho : option ∈ Text.splitAt ',' g.body) :
    (g.before ++ option ++ g.after).count openBrace < cs.count openBrace := by
  obtain ⟨hcs, hbody⟩ := firstGroup?_eq_some h
  have hoption : option.count openBrace = 0 := by
    refine List.count_eq_zero.2 fun hmem => ?_
    have := hbody _ (mem_of_mem_splitAt ho hmem)
    simp [isBrace] at this
  rw [hcs]
  simp [List.count_append, List.count_cons, hoption]
  omega

/-! ## Expansion -/

/-- All expansions of a pattern. -/
def expand (cs : List Char) : List (List Char) :=
  match _h : firstGroup? cs with
  | none => [cs]
  | some g =>
    (Text.splitAt ',' g.body).attach.flatMap fun option =>
      expand (g.before ++ option.1 ++ g.after)
termination_by cs.count openBrace
decreasing_by exact count_replaceGroup_lt _h option.2

/-- The expansions of a pattern given as a string. -/
def expandBraces (pattern : String) : List String :=
  (expand pattern.toList).map String.ofList

end Pattern
end PropCatalog
