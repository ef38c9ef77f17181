import Goultroid.Interaction.Session

/-!
# The codec of callback tokens

What is encoded is parsed to the same token. What is parsed is the encoding of its token up to the spelling of
the revision, for which `strconv.ParseUint` takes capital letters and leading zeros.

The revision stands after the last dot, and the session and the action after the colons. No part that is
accepted contains a separator, so a token is cut where it was joined (`parse_token`), and what is parsed is
the join of its parts (`parse_inv`). The revision is read in base 36; what `FormatUint` writes is the one
canonical spelling of it.
-/

namespace Goultroid.Interaction

open List

variable {actionID sessionID : GoString} {digits : List UInt8} {n : Nat}

def tokenHead (actionID sessionID : GoString) : GoString :=
  callbackVersion ++ goString ":" ++ actionID ++ goString ":" ++ sessionID ++ goString "."

/-- The text after the last dot. -/
def revisionField (data : GoString) : GoString := (data.reverse.takeWhile (· != 0x2E)).reverse

theorem token_eq : tokenHead actionID sessionID ++ digits =
    [0x3A].intercalate [callbackVersion, actionID, sessionID ++ 0x2E :: digits] := by
  have hcolon : goString ":" = [0x3A] := by decide
  have hdot : goString "." = [0x2E] := by decide
  simp [tokenHead, hcolon, hdot, List.intercalate]

theorem opaque_eq (sessionID digits : GoString) : sessionID ++ 0x2E :: digits = [0x2E].intercalate [sessionID, digits] := by
  simp [List.intercalate]

theorem read_digits (h : Text.parseUint36 digits = some n) : digits.foldl Text.feed36 (some 0) = some n := by
  unfold Text.parseUint36 at h
  split_ifs at h
  exact h

theorem revisionField_token (hdigits : Text.parseUint36 digits = some n) :
    revisionField (tokenHead actionID sessionID ++ digits) = digits := by
  have hdot : goString "." = [0x2E] := by decide
  have hall : ∀ b ∈ digits.reverse, (b != 0x2E) = true := fun b hb =>
    bne_iff_ne.mpr (Text.mem_digits (read_digits hdigits) (mem_reverse.mp hb)).1
  simp [revisionField, tokenHead, hdot, takeWhile_append_of_pos hall]

theorem identifier_spec {value : GoString} (h : validIdentifier value = true) : normalizeFeatureID value = value ∧ 0x3A ∉ value := by
  simp only [validIdentifier, Bool.and_eq_true, decide_eq_true_eq] at h
  obtain ⟨⟨-, hlower⟩, hall⟩ := h
  have hbyte (b : UInt8) (hb : identifierByte b = true) : Text.plain b = true ∧ b ≠ 0x3A := by
    have := Text.forall_byte (p := fun b => !identifierByte b || (Text.plain b && b != 0x3A)) (by decide +kernel) b
    simpa [hb] using this
  rw [all_eq_true] at hall
  refine ⟨?_, fun hmem => (hbyte _ (hall _ hmem)).2 rfl⟩
  rw [normalizeFeatureID, Text.trimSpace_of_plain, ← hlower]
  exact all_eq_true.mpr fun b hb => (hbyte b (hall b hb)).1

theorem session_spec (h : validSessionID sessionID = true) : sessionID.length = 22 ∧ 0x3A ∉ sessionID ∧ 0x2E ∉ sessionID := by
  simp only [validSessionID, Bool.and_eq_true, decide_eq_true_eq, all_eq_true] at h
  exact ⟨h.1, fun hmem => absurd (h.2 _ hmem) (by decide), fun hmem => absurd (h.2 _ hmem) (by decide)⟩

theorem action_spec (h : validateCallbackActionID actionID = none) :
    normalizeFeatureID (normalizeFeatureID actionID) = normalizeFeatureID actionID ∧ 0x3A ∉ normalizeFeatureID actionID ∧
      validateCallbackActionID (normalizeFeatureID actionID) = none ∧ (normalizeFeatureID actionID).length ≤ 24 := by
  have hspec : validIdentifier (normalizeFeatureID actionID) = true ∧ (normalizeFeatureID actionID).length ≤ 24 := by
    unfold validateCallbackActionID at h
    split_ifs at h with hvalid hlong
    exact ⟨by simpa using hvalid, not_lt.mp hlong⟩
  obtain ⟨hnormal, hcolon⟩ := identifier_spec hspec.1
  exact ⟨hnormal, hcolon, by simpa only [validateCallbackActionID, hnormal] using h, hspec.2⟩

/-- A token is taken apart as it was put together. -/
theorem parse_token {revision : Nat} (hact : validateCallbackActionID actionID = none) (hnormal : normalizeFeatureID actionID = actionID)
    (hsession : validSessionID sessionID = true) (hdigits : Text.parseUint36 digits = some revision) (hrev : revision ≠ 0)
    (hlen : (tokenHead actionID sessionID ++ digits).length ≤ maxCallbackDataBytes) :
    parseCallbackToken (tokenHead actionID sessionID ++ digits) =
      .ok { actionID := actionID, sessionID := sessionID, revision := revision } := by
  have hsplit : (tokenHead actionID sessionID ++ digits).splitOn 0x3A = [callbackVersion, actionID, sessionID ++ 0x2E :: digits] := by
    rw [token_eq, splitOn_intercalate 0x3A _ (cons_ne_nil _ _)]
    simp only [mem_cons, not_mem_nil, or_false]
    rintro l (rfl | rfl | rfl)
    · decide
    · exact hnormal ▸ (action_spec hact).2.1
    · simpa [(session_spec hsession).2.1] using fun hmem => (Text.mem_digits (read_digits hdigits) hmem).2 rfl
  have hsplit' : (sessionID ++ 0x2E :: digits).splitOn 0x2E = [sessionID, digits] := by
    rw [opaque_eq, splitOn_intercalate 0x2E _ (cons_ne_nil _ _)]
    simp only [mem_cons, not_mem_nil, or_false]
    rintro l (rfl | rfl)
    · exact (session_spec hsession).2.2
    · exact fun hmem => (Text.mem_digits (read_digits hdigits) hmem).1 rfl
  have hpos : (tokenHead actionID sessionID ++ digits).length ≠ 0 := by
    simp only [tokenHead, length_append, session_spec hsession]
    omega
  unfold parseCallbackToken
  rw [if_neg (not_or.mpr ⟨hpos, not_lt.mpr hlen⟩), hsplit]
  simp [hnormal, hact, hsplit', hsession, hdigits, hrev]

theorem parse_inv {data : GoString} {tok : CallbackToken} (h : parseCallbackToken data = .ok tok) :
    ∃ digits, data = tokenHead tok.actionID tok.sessionID ++ digits ∧
    Text.parseUint36 digits = some tok.revision ∧ tok.revision ≠ 0 ∧ normalizeFeatureID tok.actionID = tok.actionID ∧
    validateCallbackActionID tok.actionID = none ∧ validSessionID tok.sessionID = true := by
  unfold parseCallbackToken at h
  split_ifs at h with hlen
  split at h
  · next _ actionID _ hsplit =>
    split_ifs at h with hvalid
    split at h
    · next sessionID digits hsplit' =>
      split_ifs at h with hsession
      split at h
      · cases h
      next revision hdigits =>
      split_ifs at h with hzero
      cases h
      simp only [not_or, not_not, ne_eq] at hvalid
      refine ⟨digits, ?_, hdigits, hzero, hvalid.2.1, hvalid.2.2, by simpa using hsession⟩
      rw [token_eq, opaque_eq, ← hsplit', intercalate_splitOn, ← hvalid.1, ← hsplit, intercalate_splitOn]
    · cases h
  · cases h

/-- Every token is encoded in 64 bytes and parsed again, and data that is parsed is the encoding of its token exactly if
the revision is written canonically. -/
theorem callback_codec (featureID : GoString) (hfeature : validIdentifier (normalizeFeatureID featureID) = true) :
    (∀ actionID sessionID revision, validateCallbackActionID actionID = none → validSessionID sessionID = true →
      0 < revision → revision < 2 ^ 64 → ∃ data, encodeCallbackToken featureID actionID sessionID revision = .ok data ∧
        data.length ≤ 64 ∧ parseCallbackToken data =
          .ok { actionID := normalizeFeatureID actionID, sessionID := sessionID, revision := revision }) ∧
    ∀ data tok, parseCallbackToken data = .ok tok →
      (encodeCallbackToken featureID tok.actionID tok.sessionID tok.revision = .ok data ↔ Text.canonical36 (revisionField data)) := by
  have henc {actionID sessionID : GoString} {revision : Nat} (hact : validateCallbackActionID actionID = none)
      (hsession : validSessionID sessionID = true) (hpos : revision ≠ 0) :
      (tokenBytes (normalizeFeatureID actionID) sessionID revision).length ≤ 64 ∧
        encodeCallbackToken featureID actionID sessionID revision = .ok (tokenBytes (normalizeFeatureID actionID) sessionID revision) := by
    obtain ⟨-, -, hact', _⟩ := action_spec hact
    have hlen : (tokenBytes (normalizeFeatureID actionID) sessionID revision).length ≤ 64 := by
      have hdigits : (Text.formatUint36 revision).length ≤ 13 := Text.length_format36
      have hfixed : callbackVersion.length = 2 ∧ (goString ":").length = 1 ∧ (goString ".").length = 1 := by decide
      simp only [tokenBytes, length_append, session_spec hsession, hfixed]
      omega
    refine ⟨hlen, ?_⟩
    unfold encodeCallbackToken
    simp [hfeature, hsession, hpos, hact', not_lt.mpr hlen, maxCallbackDataBytes]
  refine ⟨fun actionID sessionID revision hact hsession hpos hmax => ?_, fun data tok h => ?_⟩
  · obtain ⟨hlen, hdata⟩ := henc hact hsession hpos.ne'
    obtain ⟨hnormal, -, hact', -⟩ := action_spec hact
    exact ⟨_, hdata, hlen, parse_token hact' hnormal hsession (Text.parse_format hpos.ne' hmax) hpos.ne' hlen⟩
  · obtain ⟨_, rfl, hdigits, hzero, hnormal, hact, hsession⟩ := parse_inv h
    have hread := read_digits hdigits
    have hfuel : tok.revision < 36 ^ 13 := (Text.foldl_lt hread).trans (by decide)
    rw [(henc hact hsession hzero).2, hnormal, revisionField_token hdigits, Except.ok.injEq]
    constructor
    · intro hsame
      rw [← append_cancel_left hsame]
      exact Text.canonical_format36 hzero hfuel
    · intro hcanon
      rcases Text.canonical_foldl hread hcanon with ⟨-, hnone⟩ | ⟨-, hsame⟩
      · exact absurd hnone hzero
      · rw [hsame 13 hfuel]
        rfl

def someSession : GoString := List.replicate 22 0x41

theorem callback_codec_last_revision : ∃ data,
    encodeCallbackToken (goString "menu") (goString " Open") someSession (2 ^ 64 - 1) = .ok data ∧ data.length ≤ 64 ∧
      parseCallbackToken data = .ok { actionID := goString "open", sessionID := someSession, revision := 2 ^ 64 - 1 } := by
  have hcodec := (callback_codec (goString "menu") (by decide +kernel)).1 (goString " Open") someSession (2 ^ 64 - 1)
    (by decide +kernel) (by decide +kernel) (by decide) (by decide)
  have hnormal : normalizeFeatureID (goString " Open") = goString "open" := by decide +kernel
  rwa [hnormal] at hcodec

/-- Three spellings of the revision 10. -/
theorem revision_spelled_differently :
    let token : CallbackToken := { actionID := goString "open", sessionID := someSession, revision := 10 }
    parseCallbackToken (tokenHead (goString "open") someSession ++ goString "a") = .ok token ∧
      parseCallbackToken (tokenHead (goString "open") someSession ++ goString "A") = .ok token ∧
      parseCallbackToken (tokenHead (goString "open") someSession ++ goString "0a") = .ok token := by
  decide +kernel

end Goultroid.Interaction
