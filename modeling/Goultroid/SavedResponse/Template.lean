import Goultroid.Lib.Text
import Goultroid.Tasks.Types
import Mathlib.Data.List.AList

/-!
# Saved-response templates

`internal/services/savedresponse/template.go`: a template is compiled into literals and placeholders, and
rendered with the variables of a message. What a variable contributes is escaped, apart from the anchor of a
mention, so that the markup of an output is that of the template (`rendered_markup_fixed`).

An escaped text has no markup, and every ampersand in it begins an entity. `escapeString` gives such texts, they are closed under `++`,
and numbers and dates are such texts, so a placeholder contributes one, in an anchor or not (`value_of_token`). A plain template escapes
its literals when it is compiled (`CompiledTemplate.Safe`, kept by every step of the scanner); an HTML template's literals are the same in
any two outputs.
-/

namespace Goultroid.SavedResponse

open List Bool
open Text (decimal decimalInt digit_of_mem_decimal)

def maxTemplateBytes : Nat := 16384
def defaultMaxOutputRunes : Nat := 4096
def maxVariableRunes : Nat := 512
def maxTemplateTokens : Nat := 128
def maxTokenNameBytes : Nat := 16

inductive TemplateError where
  | templateTooLarge (maxBytes : Nat)
  | renderedTooLarge (maxRunes : Nat)
  | tooManyTokens (maxTokens : Nat)
  | unsupportedFormat (format : GoString)
  deriving DecidableEq

structure Response where
  text : GoString
  format : GoString := []

def formatHTML : GoString := goString "html"
def formatPlain : GoString := goString "plain"

def Response.effectiveFormat (r : Response) : GoString := if r.format = [] then formatHTML else r.format

/-! ### Dates -/

/-- `time.Time`: seconds since January 1 of year 1 in UTC, and the offset of the zone. -/
structure Clock where
  seconds : Int
  nanoseconds : Nat := 0
  offset : Int := 0

def Clock.isZero (t : Clock) : Bool := t.seconds == 0 && t.nanoseconds == 0

/-- Year, month and day of the proleptic Gregorian calendar. -/
def Clock.date (t : Clock) : Int × Nat × Nat :=
  -- counted from March 1 of year 0, a leap day ends its year
  let days := (t.seconds + t.offset) / 86400 + 306
  let doe := (days % 146097).toNat
  let yoe := (doe - doe / 1460 + doe / 36524 - doe / 146096) / 365
  let doy := doe - (365 * yoe + yoe / 4 - yoe / 100)
  let mp := (5 * doy + 2) / 153
  let month := if mp < 10 then mp + 3 else mp - 9
  (yoe + days / 146097 * 400 + (if month ≤ 2 then 1 else 0), month, doy - (153 * mp + 2) / 5 + 1)

/-- The second of the day. -/
def Clock.clock (t : Clock) : Nat := ((t.seconds + t.offset) % 86400).toNat

/-- A number with leading zeros, as `time.Time.Format` writes it. -/
def appendInt (x : Int) (width : Nat) : GoString :=
  (if x < 0 then [0x2D] else []) ++ List.replicate (width - (decimal x.natAbs).length) 0x30 ++ decimal x.natAbs

/-- `Format("2006-01-02")`. -/
def Clock.formatDate (t : Clock) : GoString :=
  appendInt t.date.1 4 ++ [0x2D] ++ appendInt t.date.2.1 2 ++ [0x2D] ++ appendInt t.date.2.2 2

/-- `Format("15:04:05")`. -/
def Clock.formatTime (t : Clock) : GoString :=
  appendInt (t.clock / 3600 : Nat) 2 ++ [0x3A] ++ appendInt (t.clock % 3600 / 60 : Nat) 2 ++ [0x3A] ++ appendInt (t.clock % 60 : Nat) 2

example : (Clock.mk 63900000000 0 0).formatDate = goString "2025-11-29" ∧ (Clock.mk (-1) 0 0).formatDate = goString "0000-12-31" := by
  decide +kernel

/-! ### Escaping -/

/-- `html.EscapeString`. -/
def escapeByte (b : UInt8) : GoString :=
  if b = 0x26 then goString "&amp;" else if b = 0x27 then goString "&#39;" else if b = 0x3C then goString "&lt;"
  else if b = 0x3E then goString "&gt;" else if b = 0x22 then goString "&#34;" else [b]

def escapeString (s : GoString) : GoString := s.flatMap escapeByte

def escapeVar (value : GoString) : GoString :=
  escapeString ((Text.runes (Text.trimSpace value)).take maxVariableRunes).flatten

/-! ### Compilation -/

structure TemplateVars where
  name : GoString := []
  first : GoString := []
  last : GoString := []
  username : GoString := []
  userID : Int := 0
  chat : GoString := []
  chatID : Int := 0
  now : Clock := ⟨0, 0, 0⟩
  extra : AList fun _ : GoString => GoString := ∅

inductive TemplateToken where
  | literal | name | first | last | username | mention | id | chat | chatID | date | time | extra
  deriving DecidableEq

structure TemplatePart where
  literal : GoString := []
  token : TemplateToken := .literal
  extra : GoString := []
  deriving DecidableEq

structure CompiledTemplate where
  format : GoString
  parts : List TemplatePart := []
  tokenCount : Nat := 0
  usesClock : Bool := false
  deriving DecidableEq

def parseTemplateToken (name : GoString) : Option TemplateToken :=
  if name = goString "name" then some .name else if name = goString "first" then some .first
  else if name = goString "last" then some .last else if name = goString "username" then some .username
  else if name = goString "mention" then some .mention else if name = goString "id" then some .id
  else if name = goString "chat" then some .chat else if name = goString "chat_id" then some .chatID
  else if name = goString "date" then some .date else if name = goString "time" then some .time else none

/-- Where the name that starts after the first byte ends. -/
def templateTokenEnd (source : GoString) : Option Nat :=
  match ((source.take (maxTokenNameBytes + 2)).drop 1).findIdx? fun b => b == 0x7D || b == 0x7B with
  | none => none
  | some i => if source[i + 1]? = some 0x7D ∧ 0 < i then some (i + 1) else none

/-- Where two closing braces stand, among the places `i`, `i + 1`, … -/
def closingBraces (source : GoString) : Nat → Nat → Option Nat
  | 0, _ => none
  | fuel + 1, i => if source[i]? = some 0x7D ∧ source[i + 1]? = some 0x7D then some i else closingBraces source fuel (i + 1)

/-- A name in double braces, and the bytes it takes. -/
def escapedTemplateVariableAt (source : GoString) (extra : List GoString) : Option (GoString × Nat) :=
  if source.length < 4 ∨ source[0]? ≠ some 0x7B ∨ source[1]? ≠ some 0x7B then none
  else
    match closingBraces source (min source.length (maxTokenNameBytes + 4) - 3) 2 with
    | none => none
    | some i =>
      let name := (source.take i).drop 2
      if (parseTemplateToken name).isSome = true ∨ name ∈ extra then some (name, i + 2) else none

namespace CompiledTemplate

variable (t : CompiledTemplate)

def appendLiteral (value : GoString) : CompiledTemplate :=
  if value = [] then t
  else { t with parts := t.parts ++ [{ literal := if t.format = formatPlain then escapeString value else value }] }

def appendToken (token : TemplateToken) (extra : GoString) : CompiledTemplate :=
  { t with
    parts := t.parts ++ [{ token := token, extra := extra }]
    tokenCount := t.tokenCount + 1
    usesClock := t.usesClock || token == .date || token == .time }

end CompiledTemplate

/-- The loop of `compileTemplate`: `literal` is what stands between `literalStart` and the rest of the source. -/
def compileParts (extra : List GoString) : Nat → CompiledTemplate → GoString → GoString → Except TemplateError CompiledTemplate
  | 0, t, literal, _ => .ok (t.appendLiteral literal)
  | _, t, literal, [] => .ok (t.appendLiteral literal)
  | fuel + 1, t, literal, b :: source =>
    if b ≠ 0x7B then compileParts extra fuel t (literal ++ [b]) source
    else
      match escapedTemplateVariableAt (b :: source) extra with
      | some (name, consumed) =>
        compileParts extra fuel ((t.appendLiteral literal).appendLiteral ([0x7B] ++ name ++ [0x7D])) [] ((b :: source).drop consumed)
      | none =>
        match templateTokenEnd (b :: source) with
        | none => compileParts extra fuel t (literal ++ [b]) source
        | some close =>
          let name := ((b :: source).take close).drop 1
          match parseTemplateToken name, decide (name ∈ extra) with
          | none, false => compileParts extra fuel t (literal ++ (b :: source).take (close + 1)) ((b :: source).drop (close + 1))
          | token, _ =>
            let t' := (t.appendLiteral literal).appendToken (token.getD .extra) (if token = none then name else [])
            if maxTemplateTokens < t'.tokenCount then .error (.tooManyTokens maxTemplateTokens)
            else compileParts extra fuel t' [] ((b :: source).drop (close + 1))

def compileTemplate (response : Response) (extra : List GoString) : Except TemplateError CompiledTemplate :=
  if maxTemplateBytes < response.text.length then .error (.templateTooLarge maxTemplateBytes)
  else if response.effectiveFormat ≠ formatHTML ∧ response.effectiveFormat ≠ formatPlain then
    .error (.unsupportedFormat response.effectiveFormat)
  else compileParts extra response.text.length { format := response.effectiveFormat } [] response.text

/-! ### Rendering -/

def anchorOpening (userID : Int) : GoString := 0x3C :: (goString "a href=\"tg://user?id=" ++ decimalInt userID ++ goString "\">")

def anchorClosing : GoString := 0x3C :: goString "/a>"

def TemplateVars.label (vars : TemplateVars) : GoString :=
  let label := if Text.trimSpace vars.name = [] then vars.username else vars.name
  if Text.trimSpace label = [] ∧ vars.userID ≠ 0 then decimalInt vars.userID else label

def renderCompiledToken (token : TemplateToken) (vars : TemplateVars) : GoString :=
  match token with
  | .name => escapeVar vars.name
  | .first => escapeVar vars.first
  | .last => escapeVar vars.last
  | .username =>
    let username := Text.trimAt (Text.trimSpace vars.username)
    if username = [] then [] else 0x40 :: escapeVar username
  | .mention =>
    if vars.userID = 0 then escapeVar vars.label
    else anchorOpening vars.userID ++ escapeVar vars.label ++ anchorClosing
  | .id => if vars.userID = 0 then [] else decimalInt vars.userID
  | .chat => escapeVar vars.chat
  | .chatID => if vars.chatID = 0 then [] else decimalInt vars.chatID
  | .date => vars.now.formatDate
  | .time => vars.now.formatTime
  | .literal | .extra => []

def TemplatePart.value (part : TemplatePart) (vars : TemplateVars) : GoString :=
  match part.token with
  | .literal => part.literal
  | .extra => escapeVar ((vars.extra.lookup part.extra).getD [])
  | token => renderCompiledToken token vars

def normalizeRenderLimit (maxRunes : Int) : Nat :=
  if maxRunes ≤ 0 ∨ defaultMaxOutputRunes < maxRunes then defaultMaxOutputRunes else maxRunes.toNat

/-- The loop of `Render`, over what the parts contribute. -/
def writeAll (maxRunes : Nat) : Nat → GoString → List GoString → Except TemplateError GoString
  | _, out, [] => .ok out
  | writtenRunes, out, value :: values =>
    if maxRunes - writtenRunes < Text.runeCount value then .error (.renderedTooLarge maxRunes)
    else writeAll maxRunes (writtenRunes + Text.runeCount value) (out ++ value) values

/-- `Render`, with the clock it reads if it has to. -/
def CompiledTemplate.render (t : CompiledTemplate) (now : Clock) (vars : TemplateVars) (maxRunes : Int) : Except TemplateError GoString :=
  let vars := if t.usesClock = true ∧ vars.now.isZero = true then { vars with now := now } else vars
  writeAll (normalizeRenderLimit maxRunes) 0 [] (t.parts.map fun part => part.value vars)

/-! ### Escaped texts -/

/-- The characters that make tags and attributes. -/
def markup (b : UInt8) : Bool := b == 0x3C || b == 0x3E || b == 0x22

def entities : List GoString := [goString "&amp;", goString "&#39;", goString "&lt;", goString "&gt;", goString "&#34;"]

/-- There is no markup, and every ampersand begins an entity. -/
def escaped : GoString → Bool
  | [] => true
  | b :: s => !markup b && (b != 0x26 || entities.any fun e => e.isPrefixOf (b :: s)) && escaped s

section Escaped

variable {s : GoString} {b : UInt8}

theorem escaped_append {s' : GoString} (h : escaped s = true) (h' : escaped s' = true) : escaped (s ++ s') = true := by
  induction s with
  | nil => exact h'
  | cons b s ih =>
    simp only [escaped, and_eq_true, or_eq_true, any_eq_true] at h
    obtain ⟨⟨hmarkup, hent⟩, hrest⟩ := h
    simp only [cons_append, escaped, and_eq_true, or_eq_true, any_eq_true]
    refine ⟨⟨hmarkup, hent.imp_right ?_⟩, ih hrest⟩
    rintro ⟨e, he, hstart⟩
    have hfront := isPrefixOf_iff_prefix.mp hstart
    exact ⟨e, he, isPrefixOf_iff_prefix.mpr (hfront.trans (prefix_append (b :: s) s'))⟩

theorem escaped_of_plain (h : ∀ b ∈ s, markup b = false ∧ b ≠ 0x26) : escaped s = true := by
  induction s with
  | nil => rfl
  | cons b s ih =>
    obtain ⟨hmarkup, hamp⟩ := h b (mem_cons_self ..)
    simp [escaped, hmarkup, hamp, ih fun c hc => h c (mem_cons_of_mem _ hc)]

theorem escaped_escapeByte : escaped (escapeByte b) = true := by
  unfold escapeByte
  split_ifs with h1 h2 h3 h4 h5
  iterate 5
    · decide +kernel
  · simp [escaped, markup, h1, h3, h4, h5]

theorem escaped_escapeString : escaped (escapeString s) = true := by
  induction s with
  | nil => rfl
  | cons b s ih =>
    exact escaped_append escaped_escapeByte ih

theorem escaped_escapeVar {value : GoString} : escaped (escapeVar value) = true := escaped_escapeString

theorem filter_of_escaped (h : escaped s = true) : s.filter markup = [] := by
  induction s with
  | nil => rfl
  | cons b s ih =>
    simp only [escaped, and_eq_true, not_eq_true'] at h
    rw [filter_cons_of_neg (by rw [h.1.1]; simp), ih h.2]

theorem plain_of_range (h : b = 0x2D ∨ b = 0x3A ∨ 0x30 ≤ b ∧ b ≤ 0x39) : markup b = false ∧ b ≠ 0x26 := by
  have hne : b ≠ 0x3C ∧ b ≠ 0x3E ∧ b ≠ 0x22 ∧ b ≠ 0x26 := by
    refine ⟨?_, ?_, ?_, ?_⟩ <;> (rintro rfl; revert h; decide)
  simp [markup, hne]

theorem escaped_decimalInt {n : Int} : escaped (decimalInt n) = true := by
  refine escaped_of_plain fun b hb => plain_of_range ?_
  unfold decimalInt at hb
  split_ifs at hb
  · rcases mem_cons.mp hb with rfl | hb
    · exact .inl rfl
    · exact .inr (.inr (digit_of_mem_decimal hb))
  · exact .inr (.inr (digit_of_mem_decimal hb))

theorem escaped_appendInt {x : Int} {width : Nat} : escaped (appendInt x width) = true := by
  refine escaped_append (escaped_append ?_ ?_) ?_
  · split_ifs <;> rfl
  · exact escaped_of_plain fun b hb => plain_of_range (.inr (.inr (by rw [eq_of_mem_replicate hb]; decide)))
  · exact escaped_of_plain fun b hb => plain_of_range (.inr (.inr (digit_of_mem_decimal hb)))

theorem escaped_formatDate (t : Clock) : escaped t.formatDate = true :=
  escaped_append (escaped_append (escaped_append (escaped_append (escaped_appendInt ..) rfl) (escaped_appendInt ..)) rfl) (escaped_appendInt ..)

theorem escaped_formatTime (t : Clock) : escaped t.formatTime = true :=
  escaped_append (escaped_append (escaped_append (escaped_append (escaped_appendInt ..) rfl) (escaped_appendInt ..)) rfl) (escaped_appendInt ..)

end Escaped

/-! ### What the parts contribute -/

variable {vars : TemplateVars} {part : TemplatePart} {out : GoString}

theorem escaped_renderCompiledToken {token : TemplateToken} (h : ¬ (token = .mention ∧ vars.userID ≠ 0)) :
    escaped (renderCompiledToken token vars) = true := by
  cases token with
  | name | first | last | chat => exact escaped_escapeVar
  | username =>
    simp only [renderCompiledToken]
    split_ifs
    · rfl
    · exact escaped_append (s := [0x40]) rfl escaped_escapeVar
  | mention =>
    rw [renderCompiledToken, if_pos (by simpa using h)]
    exact escaped_escapeVar
  | id | chatID =>
    simp only [renderCompiledToken]
    split_ifs
    · rfl
    · exact escaped_decimalInt
  | date => exact escaped_formatDate _
  | time => exact escaped_formatTime _
  | literal | extra => rfl

/-- A placeholder contributes an escaped text, in an anchor where it is a mention of somebody with an id. -/
theorem value_of_token (vars : TemplateVars) (h : part.token ≠ .literal) : ∃ text, escaped text = true ∧ part.value vars =
      if part.token = .mention ∧ vars.userID ≠ 0 then anchorOpening vars.userID ++ text ++ anchorClosing else text := by
  by_cases hmention : part.token = .mention ∧ vars.userID ≠ 0
  · refine ⟨escapeVar vars.label, escaped_escapeVar, ?_⟩
    rw [if_pos hmention, TemplatePart.value, hmention.1]
    simp only [renderCompiledToken, if_neg hmention.2]
  · refine ⟨part.value vars, ?_, (if_neg hmention).symm⟩
    unfold TemplatePart.value
    split
    · next hliteral => exact absurd hliteral h
    · exact escaped_escapeVar
    · exact escaped_renderCompiledToken hmention

theorem filter_anchor {text : GoString} (id : Int) (h : escaped text = true) :
    (anchorOpening id ++ text ++ anchorClosing).filter markup = [0x3C, 0x22, 0x22, 0x3E, 0x3C, 0x3E] := by
  have hhref : (goString "a href=\"tg://user?id=").filter markup = [0x22] := by decide +kernel
  have hend : (goString "\">").filter markup = [0x22, 0x3E] := by decide +kernel
  have hclose : anchorClosing.filter markup = [0x3C, 0x3E] := by decide +kernel
  rw [anchorOpening, cons_append, cons_append, filter_cons_of_pos rfl]
  simp [filter_append, hhref, hend, filter_of_escaped escaped_decimalInt, filter_of_escaped h, hclose]

theorem writeAll_ok {maxRunes writtenRunes : Nat} {values : List GoString} {out' : GoString}
    (h : writeAll maxRunes writtenRunes out values = .ok out') : out' = out ++ values.flatten := by
  induction values generalizing writtenRunes out with
  | nil =>
    cases h
    simp
  | cons _ values ih =>
    rw [writeAll] at h
    split_ifs at h
    rw [ih h, append_assoc, flatten_cons]

/-! ### Segments -/

/-- What one part contributes to an output: a text, in an anchor of the user or not. -/
structure Segment where
  anchored : Bool
  text : GoString

def Segment.html (userID : Int) (segment : Segment) : GoString :=
  if segment.anchored then anchorOpening userID ++ segment.text ++ anchorClosing else segment.text

/-- The part is a mention of a user with an id. -/
def TemplatePart.mentions (part : TemplatePart) (vars : TemplateVars) : Bool := part.token == .mention && vars.userID != 0

theorem segment_of_part (vars : TemplateVars) (h : part.token = .literal → escaped part.literal = true) :
    ∃ segment : Segment, segment.html vars.userID = part.value vars ∧ segment.anchored = part.mentions vars ∧ escaped segment.text = true := by
  by_cases hliteral : part.token = .literal
  · refine ⟨⟨false, part.literal⟩, ?_, ?_, h hliteral⟩
    · simp only [Segment.html, TemplatePart.value, hliteral, false_eq_true, if_false]
    · simp [TemplatePart.mentions, hliteral]
  · obtain ⟨text, htext, hvalue⟩ := value_of_token vars hliteral
    refine ⟨⟨part.mentions vars, text⟩, ?_, rfl, htext⟩
    rw [hvalue]
    simp [Segment.html, TemplatePart.mentions]

theorem segments_of_parts (vars : TemplateVars) {parts : List TemplatePart}
    (h : ∀ part ∈ parts, part.token = .literal → escaped part.literal = true) :
    ∃ segments : List Segment, segments.map (·.html vars.userID) = parts.map (·.value vars) ∧
      segments.map (·.anchored) = parts.map (·.mentions vars) ∧ ∀ segment ∈ segments, escaped segment.text = true := by
  induction parts with
  | nil => exact ⟨[], rfl, rfl, by simp⟩
  | cons part parts ih =>
    obtain ⟨segment, hhtml, hanchored, hescaped⟩ := segment_of_part vars (h part (mem_cons_self ..))
    obtain ⟨segments, hhtmls, hmentions, hall⟩ := ih fun part' hmem => h part' (mem_cons_of_mem _ hmem)
    refine ⟨segment :: segments, ?_, ?_, ?_⟩
    · rw [map_cons, hhtml, hhtmls, map_cons]
    · rw [map_cons, hanchored, hmentions, map_cons]
    · exact forall_mem_cons.mpr ⟨hescaped, hall⟩

/-- Without the anchors, escaped segments are an escaped text. -/
theorem escaped_texts {segments : List Segment} (h : ∀ segment ∈ segments, escaped segment.text = true) :
    escaped (segments.map (·.text)).flatten = true := by
  induction segments with
  | nil => rfl
  | cons segment segments ih =>
    obtain ⟨hfirst, hrest⟩ := forall_mem_cons.mp h
    exact escaped_append hfirst (ih hrest)

/-! ### Templates -/

/-- The literals of a plain template are escaped. -/
def CompiledTemplate.Safe (t : CompiledTemplate) : Prop :=
  t.format = formatPlain → ∀ part ∈ t.parts, part.token = .literal → escaped part.literal = true

section Compile

variable {t t' : CompiledTemplate} {extra : List GoString}

theorem CompiledTemplate.Safe.append (h : t.Safe)
    (hpart : t.format = formatPlain → part.token = .literal → escaped part.literal = true) (hformat : t'.format = t.format)
    (hparts : t'.parts = t.parts ++ [part]) : t'.Safe := by
  intro hplain part' hmem hliteral
  rw [hformat] at hplain
  rw [hparts] at hmem
  rcases mem_append.mp hmem with hmem | hmem
  · exact h hplain part' hmem hliteral
  · rw [mem_singleton.mp hmem] at hliteral ⊢
    exact hpart hplain hliteral

theorem CompiledTemplate.Safe.appendLiteral (h : t.Safe) (value : GoString) : (t.appendLiteral value).Safe := by
  unfold CompiledTemplate.appendLiteral
  by_cases hempty : value = []
  · rw [if_pos hempty]
    exact h
  · rw [if_neg hempty]
    refine h.append (fun hplain _ => ?_) rfl rfl
    rw [if_pos hplain]
    exact escaped_escapeString

@[simp] theorem appendLiteral_format {value : GoString} : (t.appendLiteral value).format = t.format := by
  unfold CompiledTemplate.appendLiteral
  split_ifs <;> rfl

theorem parseTemplateToken_ne_literal {name : GoString} : parseTemplateToken name ≠ some .literal := by
  unfold parseTemplateToken
  split_ifs <;> simp

theorem compileParts_ok {fuel : Nat} {literal source : GoString} (h : compileParts extra fuel t literal source = .ok t') (hsafe : t.Safe) :
    t'.Safe ∧ t'.format = t.format := by
  fun_induction compileParts extra fuel t literal source with
  | case1 | case2 =>
    cases h
    exact ⟨hsafe.appendLiteral _, appendLiteral_format ..⟩
  | case3 fuel t literal b source _ ih => exact ih h hsafe
  | case4 fuel t literal b source _ name _ _ ih =>
    obtain ⟨hsafe', hformat⟩ := ih h ((hsafe.appendLiteral _).appendLiteral _)
    exact ⟨hsafe', by rw [hformat, appendLiteral_format, appendLiteral_format]⟩
  | case5 fuel t literal b source _ _ _ ih => exact ih h hsafe
  | case6 fuel t literal b source _ _ close _ name _ _ ih => exact ih h hsafe
  | case7 => cases h
  | case8 fuel t literal b source _ _ close _ name next _ _ ih =>
    have hnext : next.Safe := by
      refine (hsafe.appendLiteral literal).append (fun _ hliteral => ?_) rfl rfl
      -- a placeholder is no literal
      cases htoken : parseTemplateToken name with
      | none =>
        rw [htoken] at hliteral
        cases hliteral
      | some token =>
        rw [htoken] at hliteral
        have hsame : token = .literal := hliteral
        exact absurd (hsame ▸ htoken) parseTemplateToken_ne_literal
    obtain ⟨hsafe', hformat⟩ := ih h hnext
    exact ⟨hsafe', hformat.trans appendLiteral_format⟩

theorem compileTemplate_ok {response : Response} (h : compileTemplate response extra = .ok t) :
    t.Safe ∧ t.format = response.effectiveFormat := by
  unfold compileTemplate at h
  split_ifs at h
  exact compileParts_ok h nofun

end Compile

theorem render_ok {maxRunes : Int} {now : Clock} {t : CompiledTemplate} (h : t.render now vars maxRunes = .ok out) :
    ∃ vars' : TemplateVars, vars'.userID = vars.userID ∧ out = (t.parts.map fun part => part.value vars').flatten := by
  refine ⟨if t.usesClock = true ∧ vars.now.isZero = true then { vars with now := now } else vars, ?_, writeAll_ok h⟩
  split_ifs <;> rfl

theorem filter_values {vars' : TemplateVars} (hid : vars.userID = 0 ↔ vars'.userID = 0) (parts : List TemplatePart) :
    (parts.map fun part => part.value vars).flatten.filter markup = (parts.map fun part => part.value vars').flatten.filter markup := by
  induction parts with
  | nil => rfl
  | cons part parts ih =>
    simp only [map_cons, flatten_cons, filter_append, ih]
    congr 1
    by_cases hliteral : part.token = .literal
    · simp only [TemplatePart.value, hliteral]
    · obtain ⟨_, htext, heq⟩ := value_of_token vars hliteral
      obtain ⟨_, htext', heq'⟩ := value_of_token vars' hliteral
      rw [heq, heq']
      by_cases hmention : part.token = .mention ∧ vars.userID ≠ 0
      · rw [if_pos hmention, if_pos ⟨hmention.1, fun h => hmention.2 (hid.mpr h)⟩, filter_anchor _ htext, filter_anchor _ htext']
      · rw [if_neg hmention, if_neg fun h => hmention ⟨h.1, fun hzero => h.2 (hid.mp hzero)⟩, filter_of_escaped htext,
          filter_of_escaped htext']

/-- Two outputs of a template have the same markup, whatever the variables are, if they agree on whether there is a user; and what a plain
template renders is a segment for every part, anchored where the part mentions a user, with escaped texts. -/
theorem rendered_markup_fixed (response : Response) (extra : List GoString) (t : CompiledTemplate)
    (h : compileTemplate response extra = .ok t) :
    (∀ maxRunes now now' vars vars' out out', (vars.userID = 0 ↔ vars'.userID = 0) → t.render now vars maxRunes = .ok out →
      t.render now' vars' maxRunes = .ok out' → out.filter markup = out'.filter markup) ∧
    (response.effectiveFormat = formatPlain → ∀ maxRunes now vars out, t.render now vars maxRunes = .ok out →
      ∃ segments : List Segment, out = (segments.map (·.html vars.userID)).flatten ∧
        segments.map (·.anchored) = t.parts.map (·.mentions vars) ∧ (∀ segment ∈ segments, escaped segment.text = true) ∧
        escaped (segments.map (·.text)).flatten = true) := by
  obtain ⟨hsafe, hformat⟩ := compileTemplate_ok h
  constructor
  · intro maxRunes now now' vars vars' out out' hid hout hout'
    obtain ⟨used, hused, rfl⟩ := render_ok hout
    obtain ⟨_, hused', rfl⟩ := render_ok hout'
    exact filter_values (by rw [hused, hused']; exact hid) t.parts
  · intro hplain maxRunes now vars out hout
    obtain ⟨used, hused, rfl⟩ := render_ok hout
    obtain ⟨segments, hhtml, hanchored, hescaped⟩ := segments_of_parts used (hsafe (hformat.trans hplain))
    refine ⟨segments, ?_, ?_, hescaped, escaped_texts hescaped⟩
    · rw [← hused, hhtml]
    · rw [hanchored]
      simp only [TemplatePart.mentions, hused]

/-- A greeting in which a name tries to close the anchor. -/
def greeting : CompiledTemplate :=
  { format := formatPlain
    parts := [{ literal := goString "Hi &lt;" }, { token := .mention }, { literal := goString "&gt; " },
      { token := .extra, extra := goString "note" }]
    tokenCount := 2 }

theorem rendered_markup_fixed_greeting :
    let response : Response :=
      ⟨[0x48, 0x69, 0x20, 0x3C, 0x7B] ++ goString "mention" ++ [0x7D, 0x3E, 0x20, 0x7B] ++ goString "note" ++ [0x7D], formatPlain⟩
    let vars : TemplateVars := { name := goString " </a>&\"x ", userID := 7 }
    let out := goString "Hi &lt;<a href=\"tg://user?id=7\">&lt;/a&gt;&amp;&#34;x</a>&gt; "
    compileTemplate response [goString "note"] = .ok greeting ∧ greeting.render ⟨1, 0, 0⟩ vars 0 = .ok out ∧
      (∀ vars' out', vars'.userID ≠ 0 → greeting.render ⟨1, 0, 0⟩ vars' 0 = .ok out' → out'.filter markup = out.filter markup) ∧
      ∃ segments : List Segment, out = (segments.map (·.html 7)).flatten ∧ segments.map (·.anchored) = [false, true, false, false] ∧
        (∀ segment ∈ segments, escaped segment.text = true) ∧ escaped (segments.map (·.text)).flatten = true := by
  intro response vars out
  have hcompile : compileTemplate response [goString "note"] = .ok greeting := by decide +kernel
  have hrender : greeting.render ⟨1, 0, 0⟩ vars 0 = .ok out := by decide +kernel
  obtain ⟨hsame, hplain⟩ := rendered_markup_fixed response [goString "note"] greeting hcompile
  refine ⟨hcompile, hrender, fun vars' out' hid hout' => ?_, hplain rfl 0 ⟨1, 0, 0⟩ vars out hrender⟩
  exact hsame 0 ⟨1, 0, 0⟩ ⟨1, 0, 0⟩ vars' vars out' out (iff_of_false hid (by decide)) hout' hrender

end Goultroid.SavedResponse
