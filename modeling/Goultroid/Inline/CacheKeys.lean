import Goultroid.Lib.Text
import Goultroid.Tasks.Types
import Mathlib.Data.List.AList

/-!
# Keys of the inline cache

`internal/services/inline/cache.go`: results are cached under a key that joins the parts of a call with bars, and the parts are not
escaped. An offset with a bar can therefore pass for a user, and a query for a version (`offset_passes_for_user`).

The engine calls without an offset, a chat and a locale, and only the query is typed by a user. Such a key is read from both ends: the
pattern and the version are what stands before the first bars, the last parts are known by their tags down to the offset, which has
none, and what is left between them is the query, bars and all (`Call.agrees_of_key`). So nothing is read from the cache but what a
call with the same parts has put there (`cache_keys_separate`).
-/

namespace Goultroid.Inline

open List
open Text (append_cut append_cut_front decimalInt decimalInt_inj notMem_decimalInt)

inductive CachePolicy where
  | global | perUser | perChat | none
  deriving DecidableEq

/-- The arguments of `ScopedKeyEx`. -/
structure Call where
  handlerPattern : GoString
  query : GoString
  offset : GoString
  policy : CachePolicy
  userID : Int
  chatID : Int
  locale : GoString
  version : GoString

def scopedKeyEx (handlerPattern query offset : GoString) (policy : CachePolicy) (userID chatID : Int) (locale version : GoString) :
    GoString :=
  if policy = .none then [] else
    let base := handlerPattern
    let base := if version ≠ [] then base ++ goString "|v:" ++ version else base
    let base := base ++ goString "|" ++ query ++ goString "|" ++ offset
    let base := match policy with
      | .perUser => base ++ goString "|u:" ++ decimalInt userID
      | .perChat => if chatID ≠ 0 then base ++ goString "|c:" ++ decimalInt chatID else base
      | _ => base
    if locale ≠ [] then base ++ goString "|l:" ++ locale else base

def Call.key (a : Call) : GoString :=
  scopedKeyEx a.handlerPattern a.query a.offset a.policy a.userID a.chatID a.locale a.version

/-- A call of the engine (`engine.go`), which paginates after the cache. -/
def engineCall (handlerPattern version trimmed : GoString) (policy : CachePolicy) (userID : Int) : Call :=
  ⟨handlerPattern, trimmed, [], policy, userID, 0, [], version⟩

/-! ### The cache -/

section Cache

variable {ρ : Type}

structure CachedEntry (ρ : Type) where
  results : List ρ
  expiresAt : Time

abbrev Cache (ρ : Type) := AList fun _ : GoString => CachedEntry ρ

def getScoped (c : Cache ρ) (now : Time) (key : GoString) : Option (List ρ) :=
  if key = [] then none
  else (c.lookup key).bind fun entry => if entry.expiresAt < now then none else some entry.results

/-- `SetScoped`; which entries make room is left open, and so is whether the results are too large. -/
def setScoped (c : Cache ρ) (key : GoString) (results : List ρ) (tooLarge : Bool) (expiresAt : Time) (evicted : List GoString) : Cache ρ :=
  if key = [] ∨ tooLarge then c
  else (evicted.foldl (fun c k => c.erase k) (c.erase key)).insert key ⟨results, expiresAt⟩

/-- What is done to the cache. An entry is deleted once it is found to have expired. -/
inductive Op (ρ : Type) where
  | set (call : Call) (results : List ρ) (tooLarge : Bool) (expiresAt : Time) (evicted : List GoString)
  | delete (key : GoString)

def Op.run (c : Cache ρ) : Op ρ → Cache ρ
  | .set call results tooLarge expiresAt evicted => setScoped c call.key results tooLarge expiresAt evicted
  | .delete key => c.erase key

end Cache

/-! ### The parts of a key -/

abbrev bar : UInt8 := 0x7C

/-- A text with further parts, the last one first. -/
def joined (x : GoString) : List GoString → GoString
  | [] => x
  | s :: ss => joined x ss ++ bar :: s

/-- Parts without bars are found again from the end, as far as both texts have them. -/
theorem joined_cut {x y : GoString} {ss ts : List GoString} (hs : ∀ s ∈ ss, bar ∉ s) (ht : ∀ t ∈ ts, bar ∉ t)
    (h : joined x ss = joined y ts) : ss = ts ∧ x = y ∨ (∃ r rs, ss = ts ++ r :: rs) ∨ ∃ r rs, ts = ss ++ r :: rs := by
  induction ss generalizing ts with
  | nil =>
    cases ts with
    | nil => exact .inl ⟨rfl, h⟩
    | cons t ts => exact .inr (.inr ⟨t, ts, rfl⟩)
  | cons s ss ih =>
    cases ts with
    | nil => exact .inr (.inl ⟨s, ss, rfl⟩)
    | cons t ts =>
      rw [forall_mem_cons] at hs ht
      obtain ⟨hrest, rfl⟩ := append_cut hs.1 ht.1 h
      rcases ih hs.2 ht.2 hrest with ⟨rfl, rfl⟩ | ⟨r, rs, rfl⟩ | ⟨r, rs, rfl⟩
      · exact .inl ⟨rfl, rfl⟩
      · exact .inr (.inl ⟨r, rs, rfl⟩)
      · exact .inr (.inr ⟨r, rs, rfl⟩)

namespace Call

variable {a b : Call}

/-- What the key is to separate. -/
structure Agrees (a b : Call) : Prop where
  handlerPattern : a.handlerPattern = b.handlerPattern
  version : a.version = b.version
  query : a.query = b.query
  offset : a.offset = b.offset
  locale : a.locale = b.locale
  policy : a.policy = b.policy
  user : a.policy = .perUser → a.userID = b.userID
  chat : a.policy = .perChat → a.chatID = b.chatID

def tagged (s : GoString) : Prop := ∃ tag ∈ [goString "u:", goString "c:", goString "l:"], tag <+: s

/-- Of the parts of the call only the query may have a bar, its offset does not look like an id or a locale, and it has a chat if it is
for one. -/
structure Proper (a : Call) : Prop where
  cached : a.policy ≠ .none
  pattern : bar ∉ a.handlerPattern
  version : bar ∉ a.version
  offset : bar ∉ a.offset
  locale : bar ∉ a.locale
  untagged : ¬ tagged a.offset
  chat : a.policy = .perChat → a.chatID ≠ 0

theorem proper_engineCall {pattern version : GoString} {policy : CachePolicy} (query : GoString) (userID : Int) (hpattern : bar ∉ pattern)
    (hversion : bar ∉ version) (hpolicy : policy = .global ∨ policy = .perUser) :
    (engineCall pattern version query policy userID).Proper where
  cached := by rcases hpolicy with rfl | rfl <;> nofun
  pattern := hpattern
  version := hversion
  offset := not_mem_nil
  locale := not_mem_nil
  untagged := by simp [tagged, engineCall]; decide
  chat := by rcases hpolicy with rfl | rfl <;> nofun

/-- The tagged parts after the offset, the last one first. -/
def tags (a : Call) : List GoString :=
  (if a.locale = [] then [] else [goString "l:" ++ a.locale]) ++
    match a.policy with
    | .perUser => [goString "u:" ++ decimalInt a.userID]
    | .perChat => [goString "c:" ++ decimalInt a.chatID]
    | _ => []

/-- What stands before the query. -/
def front (a : Call) : GoString := if a.version = [] then a.handlerPattern else a.handlerPattern ++ bar :: (goString "v:" ++ a.version)

theorem key_eq (h : a.Proper) : a.key = joined (a.front ++ bar :: a.query) (a.tags ++ [a.offset]) := by
  have htag : goString "|" = [bar] ∧ goString "|v:" = bar :: goString "v:" ∧ goString "|u:" = bar :: goString "u:" ∧
    goString "|c:" = bar :: goString "c:" ∧ goString "|l:" = bar :: goString "l:" := by decide
  have hchat := h.chat
  have hcached := h.cached
  unfold key scopedKeyEx front tags
  by_cases hversion : a.version = [] <;> by_cases hlocale : a.locale = [] <;> cases hpolicy : a.policy <;>
    simp_all [joined]

theorem tagged_of_mem_tags {s : GoString} (h : s ∈ a.tags) : tagged s := by
  unfold tags at h
  rcases mem_append.mp h with h | h
  · split_ifs at h
    · cases h
    · exact ⟨goString "l:", by simp, _, (mem_singleton.mp h).symm⟩
  · split at h
    · exact ⟨goString "u:", by simp, _, (mem_singleton.mp h).symm⟩
    · exact ⟨goString "c:", by simp, _, (mem_singleton.mp h).symm⟩
    · cases h

theorem bar_notMem_parts (h : a.Proper) : ∀ s ∈ a.tags ++ [a.offset], bar ∉ s := by
  have htag : bar ∉ goString "u:" ∧ bar ∉ goString "c:" ∧ bar ∉ goString "l:" := by decide
  have hnumber (n : Int) : bar ∉ decimalInt n := notMem_decimalInt (by decide) (by decide) n
  have hlocale := h.locale
  have hoffset := h.offset
  unfold tags
  cases a.policy <;> split_ifs <;> simp_all

/-- The tags say which parts there are. -/
theorem tags_inj (ha : a.Proper) (hb : b.Proper) (h : a.tags = b.tags) : a.locale = b.locale ∧ a.policy = b.policy ∧
    (a.policy = .perUser → a.userID = b.userID) ∧ (a.policy = .perChat → a.chatID = b.chatID) := by
  have htag : goString "u:" = [0x75, 0x3A] ∧ goString "c:" = [0x63, 0x3A] ∧ goString "l:" = [0x6C, 0x3A] := by decide
  have hnumber (n k : Int) : decimalInt n = decimalInt k ↔ n = k := ⟨decimalInt_inj, congrArg _⟩
  have hcached := ha.cached
  have hcached' := hb.cached
  unfold tags at h
  by_cases hlocale : a.locale = [] <;> by_cases hlocale' : b.locale = [] <;> cases hpolicy : a.policy <;> cases hpolicy' : b.policy <;>
    simp_all

/-- The offset is the first part without a tag, so that one key does not have more parts than the other. -/
theorem not_longer (ha : a.Proper) {r : GoString} {rs : List GoString} : b.tags ++ [b.offset] ≠ a.tags ++ [a.offset] ++ r :: rs := by
  intro h
  have hmem : a.offset ∈ (b.tags ++ [b.offset]).dropLast := by
    rw [h, dropLast_append_of_ne_nil (cons_ne_nil r rs)]
    simp
  rw [dropLast_concat] at hmem
  exact ha.untagged (tagged_of_mem_tags hmem)

theorem front_inj (ha : a.Proper) (hb : b.Proper) (hversions : a.handlerPattern = b.handlerPattern → (a.version = [] ↔ b.version = []))
    (h : a.front ++ bar :: a.query = b.front ++ bar :: b.query) :
    a.handlerPattern = b.handlerPattern ∧ a.version = b.version ∧ a.query = b.query := by
  have hbar : bar ∉ goString "v:" := by decide
  have hfirst (c : Call) : ∃ rest, c.front ++ bar :: c.query = c.handlerPattern ++ bar :: rest := by
    unfold front
    split_ifs
    · exact ⟨_, rfl⟩
    · exact ⟨_, append_assoc ..⟩
  obtain ⟨rest, hrest⟩ := hfirst a
  obtain ⟨rest', hrest'⟩ := hfirst b
  obtain ⟨hpattern, -⟩ := append_cut_front ha.pattern hb.pattern (hrest.symm.trans (h.trans hrest'))
  refine ⟨hpattern, ?_⟩
  unfold front at h
  by_cases hnone : a.version = []
  · have hnone' := (hversions hpattern).mp hnone
    rw [if_pos hnone, if_pos hnone', hpattern] at h
    exact ⟨hnone.trans hnone'.symm, (cons.inj (append_cancel_left h)).2⟩
  · rw [if_neg hnone, if_neg (mt (hversions hpattern).mpr hnone), hpattern, append_assoc, append_assoc] at h
    obtain ⟨hversion, hquery⟩ := append_cut_front (by simp [hbar, ha.version]) (by simp [hbar, hb.version])
      (cons.inj (append_cancel_left h)).2
    exact ⟨append_cancel_left hversion, hquery⟩

/-- A key gives back all that it is to separate, if calls with the same pattern all have a version or none has. -/
theorem agrees_of_key (ha : a.Proper) (hb : b.Proper)
    (hversions : a.handlerPattern = b.handlerPattern → (a.version = [] ↔ b.version = [])) (hkey : a.key = b.key) : a.Agrees b := by
  rw [key_eq ha, key_eq hb] at hkey
  rcases joined_cut (bar_notMem_parts ha) (bar_notMem_parts hb) hkey with ⟨hparts, hrest⟩ | ⟨r, rs, hlong⟩ | ⟨r, rs, hlong⟩
  · obtain ⟨htags, hoffset⟩ := append_inj' hparts rfl
    obtain ⟨hlocale, hpolicy, huser, hchat⟩ := tags_inj ha hb htags
    obtain ⟨hpattern, hversion, hquery⟩ := front_inj ha hb hversions hrest
    exact ⟨hpattern, hversion, hquery, singleton_inj.mp hoffset, hlocale, hpolicy, huser, hchat⟩
  · exact absurd hlong (not_longer hb)
  · exact absurd hlong (not_longer ha)

end Call

/-! ### What is read from the cache -/

section Runs

variable {ρ : Type}

/-- Every entry was stored under its key by one of the operations. -/
def Stored (ops : List (Op ρ)) (c : Cache ρ) : Prop :=
  ∀ key entry, c.lookup key = some entry →
    ∃ call tooLarge evicted, .set call entry.results tooLarge entry.expiresAt evicted ∈ ops ∧ call.key = key

theorem Stored.erase {ops : List (Op ρ)} {c : Cache ρ} (h : Stored ops c) (k : GoString) : Stored ops (c.erase k) := by
  intro key entry hentry
  by_cases hkey : key = k
  · subst hkey
    rw [AList.lookup_erase] at hentry
    cases hentry
  · rw [AList.lookup_erase_ne hkey] at hentry
    exact h key entry hentry

theorem Stored.run {ops : List (Op ρ)} {c : Cache ρ} {op : Op ρ} (h : Stored ops c) (hop : op ∈ ops) : Stored ops (op.run c) := by
  cases op with
  | delete key => exact h.erase key
  | set call results tooLarge expiresAt evicted =>
    simp only [Op.run, setScoped]
    split_ifs with hskip
    · exact h
    have hroom : Stored ops (evicted.foldl (fun c k => c.erase k) (c.erase call.key)) :=
      foldlRecOn evicted _ (h.erase call.key) fun c hc k _ => hc.erase k
    intro key entry hentry
    by_cases hkey : key = call.key
    · subst hkey
      rw [AList.lookup_insert] at hentry
      obtain rfl := Option.some.inj hentry
      exact ⟨call, tooLarge, evicted, hop, rfl⟩
    · rw [AList.lookup_insert_ne hkey] at hentry
      exact hroom key entry hentry

theorem stored_runs (ops : List (Op ρ)) : Stored ops (ops.foldl Op.run ∅) :=
  foldlRecOn ops _ (fun key entry hentry => by simp at hentry) fun _ hc _ hop => hc.run hop

end Runs

/-- Among proper calls of which those with the same pattern all have a version or none has, whatever the queries are, equal keys come from
calls that agree, and what a call reads from the cache was put there by a call that agrees with it. -/
theorem cache_keys_separate {ρ : Type} (calls : Set Call) (hproper : ∀ a ∈ calls, a.Proper)
    (hversions : ∀ a ∈ calls, ∀ b ∈ calls, a.handlerPattern = b.handlerPattern → (a.version = [] ↔ b.version = [])) :
    (∀ a ∈ calls, ∀ b ∈ calls, a.key = b.key → a.Agrees b) ∧ ∀ (ops : List (Op ρ)) (a : Call) (now : Time) (results : List ρ),
        (∀ call results tooLarge expiresAt evicted, Op.set call results tooLarge expiresAt evicted ∈ ops → call ∈ calls) → a ∈ calls →
        getScoped (ops.foldl Op.run ∅) now a.key = some results →
        ∃ b tooLarge expiresAt evicted, Op.set b results tooLarge expiresAt evicted ∈ ops ∧ now ≤ expiresAt ∧ b.Agrees a := by
  have hkeys (a b : Call) (ha : a ∈ calls) (hb : b ∈ calls) (hkey : a.key = b.key) : a.Agrees b :=
    Call.agrees_of_key (hproper a ha) (hproper b hb) (hversions a ha b hb) hkey
  refine ⟨fun a ha b hb => hkeys a b ha hb, fun ops a now results hops ha hget => ?_⟩
  unfold getScoped at hget
  split_ifs at hget
  obtain ⟨entry, hentry, hfresh⟩ := Option.bind_eq_some_iff.mp hget
  split_ifs at hfresh with hexpired
  obtain rfl := Option.some.inj hfresh
  obtain ⟨b, tooLarge, evicted, hop, hkey⟩ := stored_runs ops a.key entry hentry
  exact ⟨b, tooLarge, entry.expiresAt, evicted, hop, Int.not_lt.mp hexpired, hkeys b a (hops _ _ _ _ _ hop) ha hkey⟩

/-- A query that looks like the end of another user's key. -/
theorem cache_keys_separate_user : (engineCall (goString "wiki") (goString "wiki:1") (goString "x||u:8") .perUser 7).key ≠
    (engineCall (goString "wiki") (goString "wiki:1") (goString "x") .perUser 8).key := by
  intro hkey
  have hagrees := (cache_keys_separate (ρ := Unit)
    {a | ∃ query userID, a = engineCall (goString "wiki") (goString "wiki:1") query .perUser userID} (fun a ha => ?_)
    (fun a ha b hb _ => ?_)).1 _ ⟨_, _, rfl⟩ _ ⟨_, _, rfl⟩ hkey
  · exact absurd (hagrees.user rfl) (by decide)
  · obtain ⟨query, userID, rfl⟩ := ha
    exact Call.proper_engineCall query userID (by decide) (by decide) (.inr rfl)
  · obtain ⟨_, _, rfl⟩ := ha
    obtain ⟨_, _, rfl⟩ := hb
    exact Iff.rfl

/-- For arbitrary texts an offset can pass for a user, and a query for a version. -/
theorem offset_passes_for_user :
    (∃ a b : Call, a.key = b.key ∧ a.policy = .perUser ∧ b.policy = .global ∧ a.offset ≠ b.offset ∧ a.userID ≠ b.userID) ∧
      ∃ a b : Call, a.key = b.key ∧ a.policy = .perUser ∧ b.policy = .perUser ∧ a.version ≠ b.version ∧ a.query ≠ b.query :=
  ⟨⟨⟨goString "wiki", goString "x", [], .perUser, 7, 0, [], []⟩, ⟨goString "wiki", goString "x", goString "|u:7", .global, 8, 0, [], []⟩,
      by decide +kernel⟩,
    ⟨engineCall (goString "wiki") (goString "1") (goString "x") .perUser 7, engineCall (goString "wiki") [] (goString "v:1|x") .perUser 7,
      by decide +kernel⟩⟩

end Goultroid.Inline
