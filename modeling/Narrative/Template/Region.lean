import Narrative.Text.Blank

/-! Marked regions in authored text. A text is cut, without loss, into literal runs and regions;
what the regions and their trim marks mean is decided on the cut. -/

namespace Narrative

inductive RegionKind where
  | output
  | tag
  | comment
  deriving DecidableEq

namespace RegionKind

def opening : RegionKind → Char
  | .output => '\x7b'
  | .tag => '%'
  | .comment => '#'

def closing : RegionKind → Char
  | .output => '\x7d'
  | .tag => '%'
  | .comment => '#'

def ofOpening? (c : Char) : Option RegionKind :=
  [output, tag, comment].find? (·.opening = c)

end RegionKind

/-- A closed region. A dash next to a marker, inside the region, trims the literal run outside
it. -/
structure Region where
  kind : RegionKind
  trimBefore : Bool
  body : List Char
  trimAfter : Bool
  deriving DecidableEq

/-- A part of a text: a run without regions, a region, or all that follows an opener without an
end. -/
inductive Piece where
  | literal (cs : List Char)
  | region (r : Region)
  | unclosed (kind : RegionKind) (trimBefore : Bool) (source : List Char)
  deriving DecidableEq

def isQuote (c : Char) : Bool :=
  c = '\'' || c = '"'

namespace Region

def dash (b : Bool) : List Char :=
  if b then ['-'] else []

def source (r : Region) : List Char :=
  '\x7b' :: r.kind.opening :: dash r.trimBefore ++ r.body ++ dash r.trimAfter
    ++ [r.kind.closing, '\x7d']

/-- The characters up to the closing marker and those after it. Inside the quotation `quote` the
marker is text, and a backslash hides the next character; comments have no quotations. -/
def close? (kind : RegionKind) (quote : Option Char) : List Char → Option (List Char × List Char)
  | [] => none
  | c :: cs =>
    match quote with
    | some q =>
      if c = '\\' then
        match cs with
        | [] => none
        | d :: cs => (close? kind (some q) cs).map fun r => (c :: d :: r.1, r.2)
      else (close? kind (if c = q then none else some q) cs).map fun r => (c :: r.1, r.2)
    | none =>
      if isQuote c && kind != .comment then (close? kind (some c) cs).map fun r => (c :: r.1, r.2)
      else if c = kind.closing && cs.head? = some '\x7d' then some ([], cs.tail)
      else (close? kind none cs).map fun r => (c :: r.1, r.2)

def dashed (cs : List Char) : Bool :=
  cs.head? = some '-'

def ofOpened? (kind : RegionKind) (cs : List Char) : Option (Region × List Char) :=
  (close? kind none (if dashed cs then cs.tail else cs)).map fun (body, rest) =>
    if body.getLast? = some '-' then (⟨kind, dashed cs, body.dropLast, true⟩, rest)
    else (⟨kind, dashed cs, body, false⟩, rest)

theorem close?_length {kind : RegionKind} {quote : Option Char} {cs body rest : List Char}
    (h : close? kind quote cs = some (body, rest)) : rest.length < cs.length := by
  fun_induction close? kind quote cs generalizing body rest with
  | case1 => cases h
  | case2 => cases h
  | case3 q d cs ih =>
    obtain ⟨⟨b, r⟩, hc, hr⟩ := Option.map_eq_some_iff.mp h
    cases hr
    have := ih hc
    simp only [List.length_cons]
    omega
  | case4 c cs q _ ih =>
    obtain ⟨⟨b, r⟩, hc, hr⟩ := Option.map_eq_some_iff.mp h
    cases hr
    have := ih hc
    simp only [List.length_cons]
    omega
  | case5 c cs _ ih =>
    obtain ⟨⟨b, r⟩, hc, hr⟩ := Option.map_eq_some_iff.mp h
    cases hr
    have := ih hc
    simp only [List.length_cons]
    omega
  | case6 c cs _ _ =>
    cases h
    simp only [List.length_tail, List.length_cons]
    omega
  | case7 c cs _ _ ih =>
    obtain ⟨⟨b, r⟩, hc, hr⟩ := Option.map_eq_some_iff.mp h
    cases hr
    have := ih hc
    simp only [List.length_cons]
    omega

theorem ofOpened?_length {kind : RegionKind} {cs rest : List Char} {r : Region}
    (h : ofOpened? kind cs = some (r, rest)) : rest.length < cs.length := by
  obtain ⟨⟨body, rest'⟩, hc, hr⟩ := Option.map_eq_some_iff.mp h
  have hle : rest' = rest := by
    dsimp only at hr
    split at hr <;> cases hr <;> rfl
  subst hle
  have := close?_length hc
  split at this
  · simp only [List.length_tail] at this
    omega
  · omega

end Region

def opener? : List Char → Option (RegionKind × List Char)
  | '\x7b' :: c :: cs => (RegionKind.ofOpening? c).map fun kind => (kind, cs)
  | _ => none

theorem opener?_length {cs rest : List Char} {kind : RegionKind}
    (h : opener? cs = some (kind, rest)) : rest.length < cs.length := by
  unfold opener? at h
  split at h
  · obtain ⟨k, _, hk⟩ := Option.map_eq_some_iff.mp h
    cases hk
    simp only [List.length_cons]
    omega
  · cases h

/-- Puts a character in front of a cut, into its first literal run if it starts with one. -/
def consLiteral (c : Char) : List Piece → List Piece
  | .literal cs :: ps => .literal (c :: cs) :: ps
  | ps => .literal [c] :: ps

/-- The pieces of a text. After an opener without an end nothing is cut. -/
def cut : List Char → List Piece
  | [] => []
  | c :: cs =>
    match h : opener? (c :: cs) with
    | none => consLiteral c (cut cs)
    | some (kind, inner) =>
      have := opener?_length h
      match h' : Region.ofOpened? kind inner with
      | none => [.unclosed kind (Region.dashed inner) (c :: cs)]
      | some (r, rest) =>
        have := Region.ofOpened?_length h'
        .region r :: cut rest
termination_by cs => cs.length
decreasing_by all_goals simp only [List.length_cons] at *; omega

end Narrative
