import Goultroid.Lib.Text
import Goultroid.Tasks.Types

/-!
# Names of the jobs of plugins

`internal/plugin/context_jobs.go`: a plugin names its jobs and handlers freely, and what the jobs manager gets to
see is the name in the scope of the plugin.

A component of such a name is escaped, so that it has no colon left and can be read back (`component_spec`). A
scoped name is therefore cut at its colons into the parts it was made of.
-/

namespace Goultroid.Plugin

open List
open Text (trimSpace)

variable {name : List UInt8} {owner : GoString}

/-- `strings.ReplaceAll` of a text of one byte. -/
def replaceAll (s : GoString) (old : UInt8) (new : GoString) : GoString := s.flatMap fun b => if b = old then new else [b]

def encodePluginJobComponent (value : GoString) : GoString :=
  replaceAll (replaceAll (trimSpace value) 0x25 (goString "%25")) 0x3A (goString "%3A")

def pluginJobOwner (owner : GoString) : GoString := goString "plugin:" ++ encodePluginJobComponent owner

def pluginScopedName (owner name : GoString) : GoString :=
  let name := trimSpace name
  if name = [] then [] else pluginJobOwner owner ++ goString ":" ++ encodePluginJobComponent name

/-- The text that a component was made of. -/
def decodeComponent : GoString → GoString
  | 0x25 :: 0x32 :: 0x35 :: s => 0x25 :: decodeComponent s
  | 0x25 :: 0x33 :: 0x41 :: s => 0x3A :: decodeComponent s
  | b :: s => b :: decodeComponent s
  | [] => []

/-- The owner and the name in a scoped name. -/
def splitScopedName (s : GoString) : Option (GoString × GoString) :=
  match s.splitOn 0x3A with
  | [scope, owner, name] => if scope = goString "plugin" then some (decodeComponent owner, decodeComponent name) else none
  | _ => none

/-- No separator is left, and the text can be read back. -/
theorem component_spec (value : GoString) :
    0x3A ∉ encodePluginJobComponent value ∧ decodeComponent (encodePluginJobComponent value) = trimSpace value := by
  have hpercent : goString "%25" = [0x25, 0x32, 0x35] := by decide
  have hcolon : goString "%3A" = [0x25, 0x33, 0x41] := by decide
  rw [encodePluginJobComponent, hpercent, hcolon]
  induction trimSpace value with
  | nil => exact ⟨not_mem_nil, rfl⟩
  | cons b s ih =>
    simp only [replaceAll, flatMap_cons, flatMap_append] at ih ⊢
    generalize (s.flatMap _).flatMap _ = coded at ih
    obtain ⟨hmem, hcoded⟩ := ih
    by_cases hb : b = 0x25
    · subst hb
      simp [decodeComponent, hmem, hcoded]
    by_cases hb' : b = 0x3A
    · subst hb'
      simp [decodeComponent, hmem, hcoded]
    · simp [decodeComponent, hmem, hcoded, hb, hb', Ne.symm hb']

theorem splitScopedName_pluginScopedName (hname : trimSpace name ≠ []) :
    splitScopedName (pluginScopedName owner name) = some (trimSpace owner, trimSpace name) := by
  obtain ⟨howner, howner'⟩ := component_spec owner
  obtain ⟨hcoded, hcoded'⟩ := component_spec (trimSpace name)
  have hjoin : pluginScopedName owner name = [0x3A].intercalate
      [goString "plugin", encodePluginJobComponent owner, encodePluginJobComponent (trimSpace name)] := by
    have hplugin : goString "plugin:" = goString "plugin" ++ [0x3A] := by decide
    have hcolon : goString ":" = [0x3A] := by decide
    simp [pluginScopedName, hname, pluginJobOwner, hplugin, hcolon, List.intercalate]
  rw [splitScopedName, hjoin, splitOn_intercalate 0x3A _ (cons_ne_nil _ _)]
  · simp [howner', hcoded', Text.trimSpace_trimSpace]
  · simp only [mem_cons, not_mem_nil, or_false]
    rintro l (rfl | rfl | rfl)
    · decide
    · exact howner
    · exact hcoded

/-- A scoped name tells the plugin and the name in it: two plugins never have one in common. -/
theorem scoped_names_isolated {name' : List UInt8} {owner' : GoString} (hname : trimSpace name ≠ []) (hname' : trimSpace name' ≠ []) :
    splitScopedName (pluginScopedName owner name) = some (trimSpace owner, trimSpace name) ∧
      (pluginScopedName owner name = pluginScopedName owner' name' →
        (trimSpace owner, trimSpace name) = (trimSpace owner', trimSpace name')) := by
  refine ⟨splitScopedName_pluginScopedName hname, fun hsame => ?_⟩
  apply Option.some.inj
  rw [← splitScopedName_pluginScopedName hname, ← splitScopedName_pluginScopedName hname', hsame]

theorem escaped_names_differ : pluginScopedName (goString "a") (goString "b:c") ≠ pluginScopedName (goString "a:b ") (goString "c") ∧
      pluginScopedName (goString "a:b") (goString "c") ≠ pluginScopedName (goString "a%3Ab") (goString "c") := by
  constructor
  · intro hsame
    exact absurd ((scoped_names_isolated (by decide +kernel) (by decide +kernel)).2 hsame) (by decide +kernel)
  · intro hsame
    exact absurd ((scoped_names_isolated (by decide +kernel) (by decide +kernel)).2 hsame) (by decide +kernel)

end Goultroid.Plugin
