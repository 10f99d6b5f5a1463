import DocExport.Json.Document
import DocExport.Proofs.Nodes

/-! What is read is a document that can be held: whatever the tokens are, no object gets a key
twice. -/
namespace DocExport

namespace Document
variable {key : String} {value : Document} {member : Member} {members : List Member}

theorem nodup_setMember (h : (members.map (·.1)).Nodup) : ((setMember key value members).map (·.1)).Nodup := by
  by_cases hkey : key ∈ members.map (·.1)
  · rwa [keys_setMember_of_mem hkey]
  · rw [setMember_of_not_mem hkey, List.map_append]
    exact List.concat_eq_append ▸ List.Nodup.concat hkey h

/-- Objects have each of their keys once. -/
def Distinct (d : Document) : Prop := d.Everywhere fun node => node.keys.Nodup

theorem distinct_scalar (value : Scalar) : (scalar value).Distinct :=
  everywhere_iff.mpr ⟨List.nodup_nil, fun _ h => absurd h List.not_mem_nil⟩

theorem distinct_array_iff {items : List Document} : (array items).Distinct ↔ ∀ item ∈ items, item.Distinct :=
  everywhere_array_iff.trans (and_iff_right List.nodup_nil)

theorem distinct_array_cons_iff {items : List Document} :
    (array (value :: items)).Distinct ↔ value.Distinct ∧ (array items).Distinct := by
  rw [distinct_array_iff, distinct_array_iff, List.forall_mem_cons]

theorem distinct_array_reverse {items : List Document} (h : (array items).Distinct) : (array items.reverse).Distinct :=
  distinct_array_iff.mpr fun item hitem => distinct_array_iff.mp h item (List.mem_reverse.mp hitem)

theorem distinct_object_iff :
    (object members).Distinct ↔ (members.map (·.1)).Nodup ∧ ∀ member ∈ members, member.2.Distinct :=
  everywhere_iff

theorem Distinct.setMember (h : (object members).Distinct) (hvalue : value.Distinct) :
    (object (setMember key value members)).Distinct := by
  obtain ⟨hkeys, hvalues⟩ := distinct_object_iff.mp h
  refine distinct_object_iff.mpr ⟨nodup_setMember hkeys, fun member hmember => ?_⟩
  rcases mem_setMember hmember with rfl | hold
  · exact hvalue
  · exact hvalues member hold

end Document

namespace Json
open Document
variable {stack next : List Frame} {focus after : Focus} {token : Token} {tokens : List Token} {d : Document}

/-- What has been read of a container that is still open. -/
def Frame.soFar : Frame → Document
  | .array items => .array items
  | .object members | .member members _ => .object members

/-- What the reader has in hand has each key once. -/
structure Sound (stack : List Frame) (focus : Focus) : Prop where
  frames : ∀ frame ∈ stack, frame.soFar.Distinct
  value : ∀ d, focus = .finished d → d.Distinct

theorem sound_finished (hstack : ∀ frame ∈ stack, frame.soFar.Distinct) (hd : d.Distinct) :
    Sound stack (.finished d) :=
  ⟨hstack, fun _ h => Focus.finished.inj h ▸ hd⟩

theorem sound_startValue (h : startValue stack token = some (next, after))
    (hstack : ∀ frame ∈ stack, frame.soFar.Distinct) : Sound next after := by
  unfold startValue at h
  split at h
  · cases h
    exact sound_finished hstack (distinct_scalar _)
  · split at h
    · cases h
      exact ⟨List.forall_mem_cons.mpr ⟨distinct_array_iff.mpr (List.forall_mem_nil _), hstack⟩, nofun⟩
    · cases h
  · split at h
    · cases h
      refine ⟨List.forall_mem_cons.mpr ⟨?_, hstack⟩, nofun⟩
      exact distinct_object_iff.mpr ⟨List.nodup_nil, List.forall_mem_nil _⟩
    · cases h
  · cases h

theorem sound_startMember (h : startMember stack token = some (next, after))
    (hstack : ∀ frame ∈ stack, frame.soFar.Distinct) : Sound next after := by
  unfold startMember at h
  split at h
  · cases h
    exact ⟨hstack, nofun⟩
  · cases h

theorem Sound.step (hsound : Sound stack focus) (h : step stack focus token = some (next, after)) :
    Sound next after := by
  obtain ⟨hstack, hvalue⟩ := hsound
  revert h
  fun_cases Json.step stack focus token with
  | case1 => exact fun h => sound_startValue h hstack
  | case2 rest =>
    intro h
    cases h
    obtain ⟨hfirst, hrest⟩ := List.forall_mem_cons.mp hstack
    exact sound_finished hrest hfirst
  | case3 => exact fun h => sound_startValue h hstack
  | case4 rest =>
    intro h
    cases h
    obtain ⟨hfirst, hrest⟩ := List.forall_mem_cons.mp hstack
    exact sound_finished hrest hfirst
  | case5 => exact fun h => sound_startMember h hstack
  | case6 => exact fun h => sound_startMember h hstack
  | case7 members rest key =>
    intro h
    cases h
    exact ⟨List.forall_mem_cons.mpr (List.forall_mem_cons.mp hstack), nofun⟩
  | case8 items rest value =>
    intro h
    cases h
    obtain ⟨hitems, hrest⟩ := List.forall_mem_cons.mp hstack
    exact ⟨List.forall_mem_cons.mpr ⟨distinct_array_cons_iff.mpr ⟨hvalue value rfl, hitems⟩, hrest⟩, nofun⟩
  | case9 items rest value =>
    intro h
    cases h
    obtain ⟨hitems, hrest⟩ := List.forall_mem_cons.mp hstack
    exact sound_finished hrest (distinct_array_reverse (distinct_array_cons_iff.mpr ⟨hvalue value rfl, hitems⟩))
  | case10 members key rest value =>
    intro h
    cases h
    obtain ⟨hmembers, hrest⟩ := List.forall_mem_cons.mp hstack
    exact ⟨List.forall_mem_cons.mpr ⟨hmembers.setMember (hvalue value rfl), hrest⟩, nofun⟩
  | case11 members key rest value =>
    intro h
    cases h
    obtain ⟨hmembers, hrest⟩ := List.forall_mem_cons.mp hstack
    exact sound_finished hrest (Distinct.setMember hmembers (hvalue value rfl))
  | case12 => exact nofun

theorem Sound.run (hsound : Sound stack focus) (h : run stack focus tokens = some d) : d.Distinct := by
  fun_induction Json.run stack focus tokens with
  | case1 value =>
    cases h
    exact hsound.value d rfl
  | case2 => cases h
  | case3 stack focus token tokens next after hstep ih => exact ih (hsound.step hstep) h
  | case4 => cases h

end Json

/-- Whatever a text says, the document that it denotes has each key of an object once. -/
theorem Document.distinct_of_ofJson? {text : String} {d : Document} (h : ofJson? text = some d) : d.Distinct := by
  obtain ⟨tokens, -, hread⟩ := Option.bind_eq_some_iff.mp h
  have hstart : Json.Sound [] .value := ⟨List.forall_mem_nil _, nofun⟩
  exact hstart.run hread

end DocExport
