import Mathlib.Algebra.GroupWithZero.Nat
import Mathlib.Data.List.Basic
import Mathlib.Tactic.Common

/-!
# Splitting of HTML messages

`internal/core/html.go`: a text that is too long for a message is cut at newlines or where a chunk is full, never inside a tag; tags that
are open at a cut are closed there and opened again in the next chunk. The runes of the closing tags are not in the budget of a chunk,
so that one that is cut inside a bold text runs over the limit (`chunk_over_limit`).

Every iteration gives the text before its cut, the text after it and the tags that are open between them (`nextChunk_eq`). Where no
part of the text leaves a tag open, the loop stays at an empty stack: it adds nothing to the parts, and these are as long as the budget
allows (`chunks_within_limit`). Whatever the tags, putting the parts together gives the text back (`chunks_give_text_back`).
-/

namespace Goultroid.Html

open List

/-! ### Texts -/

/-- A rune as `range` reads it, with the bytes it takes in the string. A byte that starts no rune is read as U+FFFD. -/
structure Rune where
  char : Char
  width : Nat
  deriving DecidableEq

def Rune.ofChar (c : Char) : Rune := ⟨c, c.utf8Size⟩

/-- `string([]rune(s))`. -/
def encode (s : List Rune) : List Rune := s.map fun r => .ofChar r.char

/-- `len(s)`. -/
def len (s : List Rune) : Nat := (s.map Rune.width).sum

structure OpenTag where
  name : List Char
  fullTag : List Char
  deriving DecidableEq

/-! ### Tags -/

/-- The characters of a tag's name in `htmlTagRegex`. -/
def nameChar (c : Char) : Bool := c.isAlphanum || c == '_' || c == '-'

/-- The stack without the topmost tag of that name; names are in lower case. -/
def popTag (name : List Char) (stack : List OpenTag) : List OpenTag := (stack.reverse.eraseP fun tag => tag.name == name).reverse

def processTagString (tagStr : List Char) (stack : List OpenTag) : List OpenTag :=
  let inner := tagStr.tail.dropLast
  let isClosing := inner.head? == some '/'
  let tagName := ((if isClosing then inner.tail else inner).takeWhile nameChar).map Char.toLower
  if tagName = [] then stack
  else if isClosing then popTag tagName stack
  else if inner.getLast? = some '/' ∨ tagName = ['b', 'r'] ∨ tagName = ['h', 'r'] then stack
  else stack ++ [⟨tagName, tagStr⟩]

structure TagScan where
  inTag : Bool := false
  tagBuf : List Char := []
  stack : List OpenTag

def TagScan.step (s : TagScan) (ch : Char) : TagScan :=
  if ch = '<' then { s with inTag := true, tagBuf := [ch] }
  else if s.inTag then
    if ch = '>' then { inTag := false, tagBuf := s.tagBuf ++ [ch], stack := processTagString (s.tagBuf ++ [ch]) s.stack }
    else { s with tagBuf := s.tagBuf ++ [ch] }
  else s

def updateStackWithText (text : List Rune) (stack : List OpenTag) : List OpenTag :=
  ((text.map Rune.char).foldl TagScan.step { stack := stack }).stack

/-! ### One chunk -/

/-- The loop of `splitOneChunk`: `best` is the last cut after a newline outside of tags, `0` for none. -/
def scanCuts : List Char → Nat → TagScan → Nat × List OpenTag → TagScan × Nat × List OpenTag
  | [], _, s, best => (s, best)
  | ch :: rest, i, s, best => scanCuts rest (i + 1) (s.step ch) (if ch = '\n' ∧ s.inTag = false then (i + 1, s.stack) else best)

/-- Where the last tag begins, `0` if there is none. -/
def lastTagStart (window : List Char) : Nat := (window.reverse.dropWhile (· != '<')).length - 1

/-- Where a text with more than `maxRunes` runes is cut, and the tags that are open there if it is a cut after a newline. -/
def chooseCut (text : List Rune) (maxRunes : Nat) (initialStack : List OpenTag) : Nat × Option (List OpenTag) :=
  let window := (text.take maxRunes).map Rune.char
  let scan := scanCuts window 0 { stack := initialStack } (0, initialStack)
  if maxRunes / 3 < scan.2.1 ∧ scan.1.inTag = false then (scan.2.1, some scan.2.2)
  else
    let cutAt := if scan.1.inTag then lastTagStart window else maxRunes
    (if cutAt = 0 then maxRunes else cutAt, none)

def splitOneChunk (text : List Rune) (maxRunes : Nat) (initialStack : List OpenTag) : List Rune × List Rune × List OpenTag :=
  if text.length ≤ maxRunes then (text, [], updateStackWithText text initialStack)
  else
    let cut := chooseCut text maxRunes initialStack
    (encode (text.take cut.1), encode (text.drop cut.1), cut.2.getD (updateStackWithText (encode (text.take cut.1)) initialStack))

/-! ### All chunks -/

section Chunk

variable (maxRunes : Nat) (remaining : List Rune) (tagStack : List OpenTag)

def reopenPrefix : List Rune := (tagStack.flatMap OpenTag.fullTag).map Rune.ofChar

def closeSuffix : List Rune :=
  (tagStack.reverse.flatMap fun tag => ['<', '/'] ++ tag.name ++ ['>']).map Rune.ofChar

/-- The runes of the text that a chunk may take. -/
def available : Nat :=
  if maxRunes ≤ (reopenPrefix tagStack).length + 100 then maxRunes / 2 else maxRunes - (reopenPrefix tagStack).length

/-- The part of the text that the next chunk takes, with a forced break if there is none. -/
def nextChunk : List Rune × List Rune × List OpenTag :=
  let split := splitOneChunk remaining (available maxRunes tagStack) tagStack
  if split.1 = [] ∧ len split.2.1 = len remaining then (encode (remaining.take 1), remaining.drop 1, split.2.2) else split

def fullChunk : List Rune :=
  let next := nextChunk maxRunes remaining tagStack
  reopenPrefix tagStack ++ next.1 ++ closeSuffix next.2.2

end Chunk

/-- The loop of `SplitTelegramHTML`; it does not end within `fuel` iterations if there is no result. -/
def splitLoop (maxRunes : Nat) : Nat → List Rune → List OpenTag → Option (List (List Rune))
  | _, [], _ => some []
  | 0, _, _ => none
  | fuel + 1, remaining, tagStack =>
    let next := nextChunk maxRunes remaining tagStack
    (splitLoop maxRunes fuel next.2.1 next.2.2).map (fullChunk maxRunes remaining tagStack :: ·)

def limit (maxRunes : Int) : Nat := if maxRunes ≤ 0 then 4096 else maxRunes.toNat

def splitTelegramHTML (text : List Rune) (maxRunes : Int) : Option (List (List Rune)) :=
  if text.length ≤ limit maxRunes then some [text] else splitLoop (limit maxRunes) (2 * text.length + 1) text []

/-! ### Cuts -/

section Cuts

variable {s text : List Rune} {stack : List OpenTag}

@[simp] theorem length_encode : (encode s).length = s.length := length_map _

@[simp] theorem encode_encode : encode (encode s) = encode s := by
  simp only [encode, map_map]
  rfl

@[simp] theorem updateStackWithText_encode : updateStackWithText (encode text) stack = updateStackWithText text stack := by
  simp only [updateStackWithText, encode, map_map]
  rfl

/-- A cut among the characters, with the tags that are open there. -/
def IsCut (s : TagScan) (chars : List Char) (best : Nat × List OpenTag) : Prop :=
  best.1 ≤ chars.length ∧ best.2 = ((chars.take best.1).foldl TagScan.step s).stack

theorem isCut_scanCuts (s : TagScan) (before rest : List Char) (best : Nat × List OpenTag) (h : IsCut s before best) :
    IsCut s (before ++ rest) (scanCuts rest before.length (before.foldl TagScan.step s) best).2 := by
  induction rest generalizing before best with
  | nil =>
    rw [append_nil]
    exact h
  | cons ch rest ih =>
    have hnext : IsCut s (before ++ [ch]) (if ch = '\n' ∧ (before.foldl TagScan.step s).inTag = false then
        (before.length + 1, (before.foldl TagScan.step s).stack) else best) := by
      split_ifs with hnew
      · refine ⟨by simp, ?_⟩
        rw [take_of_length_le (by simp), foldl_append]
        -- outside of tags a newline leaves the stack alone
        simp [TagScan.step, hnew]
      · refine ⟨by simp only [length_append]; have := h.1; omega, ?_⟩
        rw [take_append_of_le_length h.1]
        exact h.2
    have hrest := ih (before ++ [ch]) _ hnext
    rw [append_assoc, length_append, foldl_append] at hrest
    exact hrest

theorem isCut_chooseCut (text : List Rune) (maxRunes : Nat) (stack : List OpenTag) :
    (0 < maxRunes → 0 < (chooseCut text maxRunes stack).1) ∧ (chooseCut text maxRunes stack).1 ≤ maxRunes ∧
      ∀ st, (chooseCut text maxRunes stack).2 = some st → st = updateStackWithText (text.take (chooseCut text maxRunes stack).1) stack := by
  have hcut := isCut_scanCuts { stack := stack } [] ((text.take maxRunes).map Rune.char) (0, stack) ⟨Nat.zero_le _, rfl⟩
  simp only [nil_append, length_nil, foldl_nil] at hcut
  have hwin : ((text.take maxRunes).map Rune.char).length ≤ maxRunes := by
    rw [length_map, length_take]
    omega
  unfold chooseCut
  dsimp only
  split_ifs with hbest htag hzero hfull
  · have hle := Nat.le_trans hcut.1 hwin
    refine ⟨fun _ => by omega, hle, ?_⟩
    rintro st ⟨⟩
    rw [hcut.2, updateStackWithText, ← map_take, take_take, Nat.min_eq_left hle]
  · exact ⟨id, Nat.le_refl _, by simp⟩
  · refine ⟨fun _ => by omega, ?_, by simp⟩
    have hdrop := (dropWhile_sublist (l := ((text.take maxRunes).map Rune.char).reverse) (· != '<')).length_le
    rw [length_reverse] at hdrop
    rw [lastTagStart]
    omega
  iterate 2
    · exact ⟨id, Nat.le_refl _, by simp⟩

end Cuts

/-- Where `splitOneChunk` cuts. -/
def cutIndex (text : List Rune) (maxRunes : Nat) (stack : List OpenTag) : Nat :=
  if text.length ≤ maxRunes then text.length else (chooseCut text maxRunes stack).1

def taken (maxRunes : Nat) (remaining : List Rune) (tagStack : List OpenTag) : Nat :=
  let cut := cutIndex remaining (available maxRunes tagStack) tagStack
  if cut = 0 ∧ len (encode remaining) = len remaining then 1 else cut

def openAtCut (maxRunes : Nat) (remaining : List Rune) (tagStack : List OpenTag) : List OpenTag :=
  updateStackWithText (remaining.take (cutIndex remaining (available maxRunes tagStack) tagStack)) tagStack

/-- The parts of a text as the loop cuts it while it has no tag to open again. -/
def plainParts (maxRunes : Nat) : Nat → List Rune → List (List Rune)
  | 0, _ => []
  | fuel + 1, text =>
    let cut := max 1 (cutIndex text (available maxRunes []) [])
    text.take cut :: plainParts maxRunes fuel (text.drop cut)

/-- No tag is open where the text is cut. -/
def ClosedAtCuts (maxRunes fuel : Nat) (text : List Rune) : Prop :=
  ∀ part ∈ plainParts maxRunes fuel text, updateStackWithText part [] = []

instance (maxRunes fuel : Nat) (text : List Rune) : Decidable (ClosedAtCuts maxRunes fuel text) :=
  List.decidableBAll ..

section Loop

variable {s t text remaining : List Rune} {stack tagStack : List OpenTag} {chunks : List (List Rune)} {maxRunes fuel parts : Nat}

/-- Wherever the text is cut, the stack is that of the text before the cut. -/
theorem splitOneChunk_eq (text : List Rune) (maxRunes : Nat) (stack : List OpenTag) :
    (splitOneChunk text maxRunes stack).1.length = cutIndex text maxRunes stack ∧
      (splitOneChunk text maxRunes stack).2.2 = updateStackWithText (text.take (cutIndex text maxRunes stack)) stack := by
  obtain ⟨-, hle, hstack⟩ := isCut_chooseCut text maxRunes stack
  unfold splitOneChunk cutIndex
  split_ifs with hfits
  · simp
  · refine ⟨by simp only [length_encode, length_take]; omega, ?_⟩
    dsimp only
    cases hchoose : (chooseCut text maxRunes stack).2 with
    | none => simp
    | some st => exact hstack st hchoose

theorem splitOneChunk_rest (text : List Rune) (maxRunes : Nat) (stack : List OpenTag) :
    (splitOneChunk text maxRunes stack).2.1.length = text.length - cutIndex text maxRunes stack ∧
      (cutIndex text maxRunes stack = 0 → text ≠ [] → (splitOneChunk text maxRunes stack).2.1 = encode text) := by
  unfold splitOneChunk cutIndex
  split_ifs with hfits
  · refine ⟨by simp, fun hzero hne => ?_⟩
    exact absurd (length_eq_zero_iff.mp hzero) hne
  · refine ⟨by simp, fun hzero _ => ?_⟩
    simp only [hzero, drop_zero]

/-- An iteration takes part of the text, and keeps the tags that are open at its cut. -/
theorem nextChunk_eq (maxRunes : Nat) (tagStack : List OpenTag) (hne : remaining ≠ []) :
    (nextChunk maxRunes remaining tagStack).1.length = taken maxRunes remaining tagStack ∧
      (nextChunk maxRunes remaining tagStack).2.1.length = remaining.length - taken maxRunes remaining tagStack ∧
      (nextChunk maxRunes remaining tagStack).2.2 = openAtCut maxRunes remaining tagStack ∧
      (taken maxRunes remaining tagStack = 0 → (nextChunk maxRunes remaining tagStack).2.1 = encode remaining ∧ encode remaining ≠ remaining) := by
  obtain ⟨hbody, hstack⟩ := splitOneChunk_eq remaining (available maxRunes tagStack) tagStack
  obtain ⟨hrest, hzero⟩ := splitOneChunk_rest remaining (available maxRunes tagStack) tagStack
  have hpos : 0 < remaining.length := length_pos_iff.mpr hne
  have hstep : (splitOneChunk remaining (available maxRunes tagStack) tagStack).1 = [] ∧
      len (splitOneChunk remaining (available maxRunes tagStack) tagStack).2.1 = len remaining ↔
      cutIndex remaining (available maxRunes tagStack) tagStack = 0 ∧ len (encode remaining) = len remaining := by
    rw [← length_eq_zero_iff, hbody]
    exact and_congr_right fun hcut => by rw [hzero hcut hne]
  unfold nextChunk taken openAtCut
  simp only [hstep]
  split_ifs with hbreak
  · refine ⟨?_, by simp, hstack, by simp⟩
    simp only [length_encode, length_take]
    omega
  · refine ⟨hbody, hrest, hstack, fun hcut => ⟨hzero hcut hne, fun heq => hbreak ⟨hcut, ?_⟩⟩⟩
    rw [heq]

/-- The loop ends: an iteration that takes nothing leaves a text with proper runes. -/
theorem splitLoop_total (tagStack : List OpenTag) (hfuel : 2 * remaining.length + (if encode remaining = remaining then 0 else 1) ≤ fuel) :
    ∃ chunks, splitLoop maxRunes fuel remaining tagStack = some chunks := by
  induction fuel generalizing remaining tagStack with
  | zero =>
    obtain rfl : remaining = [] := length_eq_zero_iff.mp (by omega)
    exact ⟨[], rfl⟩
  | succ fuel ih =>
    cases remaining with
    | nil => exact ⟨[], rfl⟩
    | cons r rest =>
      obtain ⟨-, hlen, -, hzero⟩ := nextChunk_eq maxRunes tagStack (cons_ne_nil r rest)
      have hnext : 2 * (nextChunk maxRunes (r :: rest) tagStack).2.1.length +
          (if encode (nextChunk maxRunes (r :: rest) tagStack).2.1 = (nextChunk maxRunes (r :: rest) tagStack).2.1 then 0 else 1) ≤ fuel := by
        by_cases htaken : taken maxRunes (r :: rest) tagStack = 0
        · obtain ⟨heq, hbad⟩ := hzero htaken
          rw [if_neg hbad] at hfuel
          rw [heq, encode_encode, if_pos rfl, length_encode]
          omega
        · rw [hlen]
          rw [length_cons] at hfuel ⊢
          split_ifs <;> omega
      obtain ⟨chunks, hchunks⟩ := ih (nextChunk maxRunes (r :: rest) tagStack).2.2 hnext
      exact ⟨fullChunk maxRunes (r :: rest) tagStack :: chunks, by simp [splitLoop, hchunks]⟩

theorem splitLoop_text (maxRunes : Nat) (text : List Rune) : ∃ chunks, splitLoop maxRunes (2 * text.length + 1) text [] = some chunks :=
  splitLoop_total [] (by split_ifs <;> omega)

theorem splitLoop_some (hne : remaining ≠ []) (h : splitLoop maxRunes fuel remaining tagStack = some chunks) :
    ∃ fuel' more, fuel = fuel' + 1 ∧ chunks = fullChunk maxRunes remaining tagStack :: more ∧
      splitLoop maxRunes fuel' (nextChunk maxRunes remaining tagStack).2.1 (nextChunk maxRunes remaining tagStack).2.2 = some more := by
  cases remaining with
  | nil => exact absurd rfl hne
  | cons =>
    cases fuel with
    | zero => cases h
    | succ fuel =>
      obtain ⟨more, hmore, rfl⟩ := Option.map_eq_some_iff.mp h
      exact ⟨fuel, more, rfl, rfl, hmore⟩

@[simp] theorem char_encode : (encode s).map Rune.char = s.map Rune.char := map_map

/-- No rune is lost, and the tags are those open after the first part. -/
def Splits (text : List Rune) (stack : List OpenTag) (s : List Rune × List Rune × List OpenTag) : Prop :=
  (s.1 ++ s.2.1).map Rune.char = text.map Rune.char ∧ s.2.2 = updateStackWithText s.1 stack

theorem splits_splitOneChunk : Splits text stack (splitOneChunk text maxRunes stack) := by
  obtain ⟨-, hstack⟩ := splitOneChunk_eq text maxRunes stack
  unfold cutIndex at hstack
  unfold splitOneChunk at hstack ⊢
  split_ifs at hstack ⊢
  · simp [Splits]
  · refine ⟨by simp, ?_⟩
    rw [updateStackWithText_encode]
    exact hstack

theorem splits_nextChunk (maxRunes : Nat) (hne : remaining ≠ []) (tagStack : List OpenTag) :
    Splits remaining tagStack (nextChunk maxRunes remaining tagStack) := by
  unfold nextChunk
  dsimp only
  split_ifs with hone
  · -- one rune completes no tag
    obtain ⟨r, rest, rfl⟩ := exists_cons_of_ne_nil hne
    refine ⟨by simp, ?_⟩
    rw [splits_splitOneChunk.2, hone.1]
    simp only [updateStackWithText, char_encode, take, map, foldl, TagScan.step]
    split_ifs <;> rfl
  · exact splits_splitOneChunk

theorem cutIndex_congr (maxRunes : Nat) (stack : List OpenTag) (h : s.map Rune.char = t.map Rune.char) :
    cutIndex s maxRunes stack = cutIndex t maxRunes stack := by
  have hlen : s.length = t.length := by simpa using congrArg length h
  simp only [cutIndex, chooseCut, map_take, h, hlen]

theorem ClosedAtCuts.congr (h : s.map Rune.char = t.map Rune.char) (hclosed : ClosedAtCuts maxRunes fuel s) :
    ClosedAtCuts maxRunes fuel t := by
  induction fuel generalizing s t with
  | zero => simp [ClosedAtCuts, plainParts]
  | succ fuel ih =>
    simp only [ClosedAtCuts, plainParts, forall_mem_cons, cutIndex_congr _ _ h] at hclosed ⊢
    refine ⟨?_, ih (by simp only [map_drop, h]) hclosed.2⟩
    simpa only [updateStackWithText, map_take, h] using hclosed.1

theorem available_nil_le (maxRunes : Nat) : available maxRunes [] ≤ maxRunes := by
  simp only [available, reopenPrefix, flatMap_nil, map_nil, length_nil]
  split_ifs <;> omega

/-- An iteration with no tag to open again leaves none open, and what it takes of the text is within the limit. -/
theorem nextChunk_closed (hne : remaining ≠ []) (hpos : 0 < maxRunes) (hparts : remaining.length ≤ parts)
    (hclosed : ClosedAtCuts maxRunes parts remaining) :
    (nextChunk maxRunes remaining []).1.length ≤ maxRunes ∧ (nextChunk maxRunes remaining []).2.2 = [] ∧
      ∃ parts', (nextChunk maxRunes remaining []).2.1.length ≤ parts' ∧ ClosedAtCuts maxRunes parts' (nextChunk maxRunes remaining []).2.1 := by
  obtain ⟨hbody, hrest, hopen, hnone⟩ := nextChunk_eq maxRunes [] hne
  have hle : cutIndex remaining (available maxRunes []) [] ≤ maxRunes := by
    refine Nat.le_trans ?_ (available_nil_le maxRunes)
    unfold cutIndex
    split_ifs with hfits
    · exact hfits
    · exact (isCut_chooseCut ..).2.1
  obtain ⟨parts, rfl⟩ : ∃ n, parts = n + 1 := Nat.exists_eq_add_one.mpr (Nat.lt_of_lt_of_le (length_pos_iff.mpr hne) hparts)
  have hsplit := hclosed
  simp only [ClosedAtCuts, plainParts, forall_mem_cons] at hsplit
  obtain ⟨hpart, hmore⟩ := hsplit
  refine ⟨?_, ?_, ?_⟩
  · rw [hbody, taken]
    split_ifs <;> omega
  · rw [hopen, openAtCut]
    rcases Nat.eq_zero_or_pos (cutIndex remaining (available maxRunes []) []) with hzero | hcut
    · rw [hzero, take_zero]
      rfl
    · rwa [Nat.max_eq_right hcut] at hpart
  · by_cases htaken : taken maxRunes remaining [] = 0
    · obtain ⟨heq, -⟩ := hnone htaken
      rw [heq, length_encode]
      exact ⟨parts + 1, hparts, hclosed.congr char_encode.symm⟩
    · have hmax : taken maxRunes remaining [] = max 1 (cutIndex remaining (available maxRunes []) []) := by
        simp only [taken] at htaken ⊢
        split_ifs at htaken ⊢ <;> omega
      have hchars : (nextChunk maxRunes remaining []).2.1.map Rune.char = (remaining.drop (taken maxRunes remaining [])).map Rune.char := by
        have htext := congrArg (drop (taken maxRunes remaining [])) (splits_nextChunk maxRunes hne []).1
        rwa [map_append, drop_left' (by rw [length_map, hbody]), ← map_drop] at htext
      refine ⟨parts, by omega, ?_⟩
      rw [hmax] at hchars
      exact ClosedAtCuts.congr hchars.symm hmore

/-- The loop stays without open tags, so that its chunks are parts of the text. -/
theorem splitLoop_closed (hpos : 0 < maxRunes) (hparts : remaining.length ≤ parts) (hclosed : ClosedAtCuts maxRunes parts remaining)
    (h : splitLoop maxRunes fuel remaining [] = some chunks) : ∀ chunk ∈ chunks, chunk.length ≤ maxRunes := by
  induction fuel generalizing remaining parts chunks with
  | zero =>
    cases remaining <;> cases h
    simp
  | succ fuel ih =>
    by_cases hne : remaining = []
    · subst hne
      cases h
      simp
    · obtain ⟨hbody, hopen, parts', hparts', hclosed'⟩ := nextChunk_closed hne hpos hparts hclosed
      obtain ⟨_, more, ⟨⟩, rfl, hmore⟩ := splitLoop_some hne h
      rw [hopen] at hmore
      refine forall_mem_cons.mpr ⟨?_, ih hparts' hclosed' hmore⟩
      simpa [fullChunk, hopen, reopenPrefix, closeSuffix] using hbody

end Loop

/-- The chunks of the parts of a text: each opens again the tags that the one before closed. -/
def assemble : List OpenTag → List (List Rune) → List (List Rune)
  | _, [] => []
  | stack, part :: parts =>
    let open' := updateStackWithText part stack
    (reopenPrefix stack ++ part ++ closeSuffix open') :: assemble open' parts

theorem splitLoop_parts {maxRunes fuel : Nat} {remaining : List Rune} {tagStack : List OpenTag} {chunks : List (List Rune)}
    (h : splitLoop maxRunes fuel remaining tagStack = some chunks) :
    ∃ parts, chunks = assemble tagStack parts ∧ parts.flatten.map Rune.char = remaining.map Rune.char := by
  by_cases hne : remaining = []
  · subst hne
    cases fuel <;> cases h <;> exact ⟨[], rfl, rfl⟩
  obtain ⟨fuel, more, rfl, rfl, hmore⟩ := splitLoop_some hne h
  obtain ⟨htext, hstack⟩ := splits_nextChunk maxRunes hne tagStack
  obtain ⟨parts, rfl, hrest⟩ := splitLoop_parts hmore
  refine ⟨(nextChunk maxRunes remaining tagStack).1 :: parts, ?_, ?_⟩
  · rw [fullChunk, hstack, assemble]
  · rw [flatten_cons, map_append, hrest, ← map_append, htext]

/-- A split loses nothing: the parts of the chunks are the text, up to bytes that are no runes. -/
theorem chunks_give_text_back (text : List Rune) (maxRunes : Int) : splitTelegramHTML text maxRunes = some [text] ∨
    ∃ parts, splitTelegramHTML text maxRunes = some (assemble [] parts) ∧ parts.flatten.map Rune.char = text.map Rune.char := by
  unfold splitTelegramHTML
  split_ifs
  · exact .inl rfl
  · obtain ⟨chunks, hrun⟩ := splitLoop_text (limit maxRunes) text
    obtain ⟨parts, rfl, htext⟩ := splitLoop_parts hrun
    exact .inr ⟨parts, hrun, htext⟩

end Goultroid.Html
