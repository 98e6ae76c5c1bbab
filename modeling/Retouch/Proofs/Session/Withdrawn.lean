/-
  Requests that were given up.

  A request stands in line, and makes one call when it begins.  It is withdrawn by a newer one that
  takes its place and by an order to give all up: in line it turns into a job that only ends it, and
  its call then brings that it was withdrawn, unless the generator is stubborn (`Withdraws`, `Off`).
  So all requests were given up but the current one (`Held`), and after an order to give all up that
  one too (`Held.cancel`).
-/
import Mathlib.Data.List.Nodup
import Retouch.Proofs.Session.Pauses

namespace Retouch.Session

variable {δ : Type}

/-! ## Requests that were given up -/

/-- Whether a request was given up: it does not begin any more, and each of its calls is withdrawn,
is made for nothing, or has a stubborn generator, which answers all the same. -/
structure Off (running : List Nat) (starts : List (Nat × Bool)) (calls : List Call) (id : Nat) :
    Prop where
  begins : (id, true) ∉ starts
  calls : ∀ c ∈ calls, c.request? = some id →
    c.stubborn = true ∨ c.reply = some .withdrawn ∨ id ∉ running

/-- Whether all requests were given up but the current one, and that one too if it is no later than
a number.  Each request stands in line once or made one call. -/
structure Held (gone : Nat) (s : Session δ) : Prop where
  nodup : s.requests.Nodup
  le : ∀ id ∈ s.requests, id ≤ s.preview.latest
  begun : ∀ id, (id, true) ∈ s.starts → id ∈ s.preview.running
  off : ∀ id, s.preview.current ≠ some id ∨ id ≤ gone →
    Off s.preview.running s.starts s.calls id
  base : gone ≤ s.preview.latest

section

variable {gone : Nat} {s t u : Session δ}

theorem Held.aside (h : Held gone s) (ha : Aside s t) : Held gone t := by
  have hsub : t.requests.Sublist s.requests := by
    unfold requests
    rw [ha.calls]
    exact (ha.starts.map _).append (.refl _)
  refine ⟨h.nodup.sublist hsub, fun id hid => ?_, fun id hid => ?_, fun id hid => ?_, ?_⟩
  · rw [ha.latest]
    exact h.le id (hsub.subset hid)
  · rw [ha.running]
    exact h.begun id (ha.starts.subset hid)
  · rw [ha.current] at hid
    rw [ha.running, ha.calls]
    have hoff := h.off id hid
    exact ⟨fun hmem => hoff.begins (ha.starts.subset hmem), hoff.calls⟩
  · rw [ha.latest]
    exact h.base

/-! ## Withdrawing -/

/-- Whether a session is another one after requests were withdrawn: perhaps fewer begin, and perhaps
fewer calls bring what they were answered with. -/
structure Withdraws (s t : Session δ) : Prop extends Calm s t where
  preview : t.preview = s.preview
  ids : t.starts.map Prod.fst = s.starts.map Prod.fst
  asked : t.calls.filterMap Call.request? = s.calls.filterMap Call.request?
  begins : ∀ id, (id, true) ∈ t.starts → (id, true) ∈ s.starts
  calls : ∀ c ∈ t.calls, ∃ b ∈ s.calls, c.request? = b.request? ∧ c.stubborn = b.stubborn ∧
    (c.reply = b.reply ∨ c.reply = some .withdrawn)

namespace Withdraws

theorem refl (s : Session δ) : Withdraws s s where
  toCalm := .refl s
  preview := rfl
  ids := rfl
  asked := rfl
  begins _ := id
  calls c hc := ⟨c, hc, rfl, rfl, .inl rfl⟩

theorem requests (h : Withdraws s t) : t.requests = s.requests := by
  unfold Session.requests
  rw [h.ids, h.asked]

/-- What was given up stays so. -/
theorem off (h : Withdraws s t) {running : List Nat} {id : Nat}
    (hoff : Off running s.starts s.calls id) : Off running t.starts t.calls id := by
  refine ⟨fun hmem => hoff.begins (h.begins id hmem), fun c hc hid => ?_⟩
  obtain ⟨b, hb, hrequest, hstubborn, hreply⟩ := h.calls c hc
  rcases hreply with hreply | hreply
  · rw [hstubborn, hreply]
    exact hoff.calls b hb (hrequest ▸ hid)
  · exact .inr (.inl hreply)

end Withdraws

theorem isFor_iff (id : Nat) (c : Call) : Call.isFor id c = true ↔ c.request? = some id := by
  unfold Call.isFor Call.request?
  cases c.asker with
  | preview i => simp
  | errand n guarded => simp

theorem begins_iff (id : Nat) (j : Job δ) : j.begins id = true ↔ j.start? = some (id, true) := by
  cases j with
  | request i => simp [Job.begins, Job.start?]
  | _ => simp [Job.begins, Job.start?]

theorem start?_calledOff (id : Nat) (j : Job δ) :
    (if j.begins id then Job.requestOff id else j).start? =
      j.start?.map fun x => if x = (id, true) then (id, false) else x := by
  by_cases hj : j.begins id = true
  · rw [if_pos hj, (begins_iff id j).mp hj]
    simp [Job.start?]
  · have hne : j.start? ≠ some (id, true) := fun h => hj ((begins_iff id j).mpr h)
    rw [if_neg hj]
    cases hx : j.start? with
    | none => rfl
    | some x => simp [show x ≠ (id, true) from fun h => hne (hx.trans (congrArg some h))]

theorem pause?_calledOff (id : Nat) (j : Job δ) :
    (if j.begins id then Job.requestOff id else j).pause? = j.pause? := by
  cases j with
  | request i =>
      show (if _ then _ else _ : Job δ).pause? = none
      split
      · rfl
      · rfl
  | _ => rfl

/-- A request that stands in line to begin keeps its place in line, and does not begin. -/
theorem withdraws_line (s : Session δ) (id : Nat) (hnodup : s.requests.Nodup)
    (hbegins : (id, true) ∈ s.starts) (running : List Nat) :
    let t := { s with ready := s.ready.map fun j => if j.begins id then .requestOff id else j }
    Withdraws s t ∧ Off running t.starts t.calls id := by
  intro t
  have hstarts : t.starts = s.starts.map fun x => if x = (id, true) then (id, false) else x := by
    unfold starts
    rw [List.filterMap_map, List.map_filterMap]
    exact List.filterMap_congr fun j _ => start?_calledOff id j
  refine ⟨⟨.of_eq rfl rfl rfl rfl ?_, rfl, ?_, rfl, ?_, fun c hc => ⟨c, hc, rfl, rfl, .inl rfl⟩⟩,
    ?_, ?_⟩
  · rw [List.filterMap_map]
    exact List.filterMap_congr fun j _ => pause?_calledOff id j
  · rw [hstarts, List.map_map]
    refine List.map_congr_left fun x _ => ?_
    show (if x = (id, true) then (id, false) else x).1 = x.1
    split
    · rename_i hx
      rw [hx]
    · rfl
  · intro k hk
    rw [hstarts] at hk
    obtain ⟨x, hx, hkx⟩ := List.mem_map.mp hk
    split at hkx
    · cases hkx
    · exact hkx ▸ hx
  · intro hk
    rw [hstarts] at hk
    obtain ⟨x, hx, hkx⟩ := List.mem_map.mp hk
    split at hkx
    · cases hkx
    · contradiction
  · -- A request that stands in line made no call.
    intro c hc hid
    have hcall : id ∈ s.calls.filterMap Call.request? := List.mem_filterMap.mpr ⟨c, hc, hid⟩
    have hline : id ∈ s.starts.map Prod.fst := List.mem_map.mpr ⟨_, hbegins, rfl⟩
    exact absurd rfl ((List.nodup_append.mp hnodup).2.2 id hline id hcall)

/-- The calls before and after a call. -/
theorem calls_eq (s : Session δ) {call : Nat} (hlt : call < s.calls.length) :
    s.calls = s.calls.take call ++ s.calls[call] :: s.calls.drop (call + 1) := by
  rw [List.getElem_cons_drop, List.take_append_drop]

theorem calls_setReply (s : Session δ) {call : Nat} (hlt : call < s.calls.length)
    (outcome : Preview.Outcome) :
    (s.setReply call outcome).calls = s.calls.take call ++
      { s.calls[call] with reply := some outcome } :: s.calls.drop (call + 1) :=
  List.modify_eq_take_cons_drop hlt

theorem asked_setReply (s : Session δ) {call : Nat} (hlt : call < s.calls.length)
    (outcome : Preview.Outcome) :
    (s.setReply call outcome).calls.filterMap Call.request? = s.calls.filterMap Call.request? := by
  rw [calls_setReply s hlt]
  conv => rhs; rw [calls_eq s hlt]
  rw [List.filterMap_append, List.filterMap_append]
  rfl

/-- A call is the one that is answered, or it was there before and is none of those around it. -/
theorem mem_calls_setReply {s : Session δ} {call : Nat} (hlt : call < s.calls.length)
    {outcome : Preview.Outcome} {b : Call} (hb : b ∈ (s.setReply call outcome).calls) :
    b = { s.calls[call] with reply := some outcome } ∨
      b ∈ s.calls.take call ∨ b ∈ s.calls.drop (call + 1) := by
  rw [calls_setReply s hlt] at hb
  rcases List.mem_append.mp hb with hb | hb
  · exact .inr (.inl hb)
  · exact (List.mem_cons.mp hb).imp_right .inr

theorem mem_calls_of_around {s : Session δ} {call : Nat} {b : Call}
    (hb : b ∈ s.calls.take call ∨ b ∈ s.calls.drop (call + 1)) : b ∈ s.calls :=
  hb.elim List.mem_of_mem_take List.mem_of_mem_drop

/-- The calls around the one that a request made are of other requests. -/
theorem request?_ne_of_around {s : Session δ} {id call : Nat} (hnodup : s.requests.Nodup)
    (hlt : call < s.calls.length) (hid : s.calls[call].request? = some id) {b : Call}
    (hb : b ∈ s.calls.take call ∨ b ∈ s.calls.drop (call + 1)) : b.request? ≠ some id := by
  intro hbid
  have hcalls : (s.calls.filterMap Call.request?).Nodup := (List.nodup_append.mp hnodup).2.1
  rw [calls_eq s hlt, List.filterMap_append, List.filterMap_cons_some hid, List.nodup_middle,
    List.nodup_cons] at hcalls
  refine hcalls.1 (List.mem_append.mpr ?_)
  exact hb.imp (fun hb => List.mem_filterMap.mpr ⟨b, hb, hbid⟩)
    fun hb => List.mem_filterMap.mpr ⟨b, hb, hbid⟩

/-- The call of a request brings that it is withdrawn. -/
theorem withdraws_call (s : Session δ) {id call : Nat} (hnodup : s.requests.Nodup)
    (hbegins : (id, true) ∉ s.starts) (hlt : call < s.calls.length)
    (hid : s.calls[call].request? = some id) (running : List Nat) :
    Withdraws s (s.setReply call .withdrawn) ∧
      Off running s.starts (s.setReply call .withdrawn).calls id := by
  refine ⟨⟨.of_eq rfl rfl rfl rfl rfl, rfl, rfl, asked_setReply s hlt _, fun _ h => h,
    fun b hb => ?_⟩, hbegins, fun b hb hbid => ?_⟩
  · rcases mem_calls_setReply hlt hb with rfl | hb
    · exact ⟨_, List.getElem_mem hlt, rfl, rfl, .inr rfl⟩
    · exact ⟨b, mem_calls_of_around hb, rfl, rfl, .inl rfl⟩
  · rcases mem_calls_setReply hlt hb with rfl | hb
    · exact .inr (.inl rfl)
    · exact absurd hbid (request?_ne_of_around hnodup hlt hid hb)

/-- A job that is no request gets in line. -/
theorem Withdraws.enqueue (h : Withdraws s t) {j : Job δ} (hpause : j.pause? = none)
    (hstart : j.start? = none) : Withdraws s (t.enqueue j) ∧ (t.enqueue j).starts = t.starts := by
  have hstarts : (t.enqueue j).starts = t.starts := by
    unfold starts Session.enqueue
    rw [List.filterMap_append, List.filterMap_cons_none hstart, List.filterMap_nil, List.append_nil]
  refine ⟨⟨h.toCalm.trans (calm_enqueue t hpause), h.preview, ?_, h.asked, ?_, h.calls⟩, hstarts⟩
  · rw [hstarts]
    exact h.ids
  · rw [hstarts]
    exact h.begins

/-- A request that is withdrawn was given up. -/
theorem withdraws_withdraw (s : Session δ) (id : Nat) (hnodup : s.requests.Nodup)
    (running : List Nat) :
    Withdraws s (s.withdraw id) ∧
      Off running (s.withdraw id).starts (s.withdraw id).calls id := by
  unfold withdraw
  split
  · rename_i hline
    obtain ⟨j, hj, hbegins⟩ := List.any_eq_true.mp hline
    exact withdraws_line s id hnodup
      (List.mem_filterMap.mpr ⟨j, hj, (begins_iff id j).mp hbegins⟩) running
  · rename_i hline
    have hbegins : (id, true) ∉ s.starts := by
      intro hmem
      obtain ⟨j, hj, hstart⟩ := List.mem_filterMap.mp hmem
      exact hline (List.any_eq_true.mpr ⟨j, hj, (begins_iff id j).mpr hstart⟩)
    split
    · rename_i hnone
      refine ⟨.refl s, hbegins, fun c hc hid => ?_⟩
      have hnot := List.findIdx?_eq_none_iff.mp hnone c hc
      rw [(isFor_iff id c).mpr hid] at hnot
      cases hnot
    · rename_i call hcall
      obtain ⟨hlt, hfor, -⟩ := List.findIdx?_eq_some_iff_getElem.mp hcall
      have hid : s.calls[call].request? = some id := (isFor_iff id _).mp hfor
      rw [List.getElem?_eq_getElem hlt]
      dsimp only
      split
      · -- The call that the request made is the stubborn one.
        rename_i hstubborn
        refine ⟨.refl s, hbegins, fun b hb hbid => .inl ?_⟩
        rw [calls_eq s hlt] at hb
        rcases List.mem_append.mp hb with hb | hb
        · exact absurd hbid (request?_ne_of_around hnodup hlt hid (.inl hb))
        · rcases List.mem_cons.mp hb with rfl | hb
          · exact hstubborn
          · exact absurd hbid (request?_ne_of_around hnodup hlt hid (.inr hb))
      · obtain ⟨hwithdraws, hoff⟩ := withdraws_call s hnodup hbegins hlt hid running
        split
        · exact ⟨hwithdraws, hoff⟩
        · obtain ⟨hjoined, hstarts⟩ := hwithdraws.enqueue (j := .reply call) rfl rfl
          exact ⟨hjoined, hstarts ▸ hoff⟩

/-! ## Ending, calling and answering -/

/-- A request that does not wait to begin may end. -/
theorem Held.settle (h : Held gone s) {id : Nat} (hbegins : (id, true) ∉ s.starts)
    {p : Preview}
    (hrunning : p.running = s.preview.running.erase id ∨ p.running = s.preview.running)
    (hlatest : p.latest = s.preview.latest) (hcurrent : p.current = s.preview.current) :
    Held gone { s with preview := p } where
  nodup := h.nodup
  le k hk := hlatest ▸ h.le k hk
  begun k hk := by
    have hk' : (k, true) ∈ s.starts := hk
    rcases hrunning with hrunning | hrunning
    · have hne : k ≠ id := by
        rintro rfl
        exact hbegins hk'
      show k ∈ p.running
      rw [hrunning]
      exact (List.mem_erase_of_ne hne).mpr (h.begun k hk')
    · show k ∈ p.running
      rw [hrunning]
      exact h.begun k hk'
  off k hk := by
    have hoff := h.off k (by rw [← hcurrent]; exact hk)
    refine ⟨hoff.begins, fun c hc hid => ?_⟩
    refine (hoff.calls c hc hid).imp_right fun hreply => hreply.imp_right fun hnot hmem => hnot ?_
    rcases hrunning with hrunning | hrunning
    · exact List.mem_of_mem_erase (hrunning ▸ hmem)
    · exact hrunning ▸ hmem
  base := hlatest ▸ h.base

/-- A request that has left the line makes a call. -/
theorem Held.call (h : Held gone s) {c : Call}
    (hnew : ∀ id, c.request? = some id → id ∉ s.requests ∧ id ≤ s.preview.latest ∧
      s.preview.current = some id ∧ gone < id) :
    Held gone { s with calls := s.calls ++ [c] } := by
  cases hid : c.request? with
  | none =>
      have hrequests : ({ s with calls := s.calls ++ [c] } : Session δ).requests = s.requests := by
        unfold requests
        rw [List.filterMap_append, List.filterMap_cons_none hid, List.filterMap_nil,
          List.append_nil]
        rfl
      refine ⟨hrequests ▸ h.nodup, hrequests ▸ h.le, h.begun, fun k hk => ?_, h.base⟩
      refine ⟨(h.off k hk).begins, fun b hb hbid => ?_⟩
      rcases List.mem_append.mp hb with hb | hb
      · exact (h.off k hk).calls b hb hbid
      · rw [List.mem_singleton.mp hb, hid] at hbid
        cases hbid
  | some id =>
      obtain ⟨hfresh, hle, hcurrent, hgone⟩ := hnew id hid
      have hrequests : ({ s with calls := s.calls ++ [c] } : Session δ).requests =
          s.requests ++ [id] := by
        unfold requests
        rw [List.filterMap_append, List.filterMap_cons_some hid, List.filterMap_nil,
          ← List.append_assoc]
        rfl
      refine ⟨?_, ?_, h.begun, fun k hk => ?_, h.base⟩
      · rw [hrequests]
        exact List.nodup_append.mpr ⟨h.nodup, List.nodup_singleton _, fun k hk i hi => by
          rw [List.mem_singleton.mp hi]
          rintro rfl
          exact hfresh hk⟩
      · intro k hk
        rw [hrequests] at hk
        rcases List.mem_append.mp hk with hk | hk
        · exact h.le k hk
        · rw [List.mem_singleton.mp hk]
          exact hle
      · refine ⟨(h.off k hk).begins, fun b hb hbid => ?_⟩
        rcases List.mem_append.mp hb with hb | hb
        · exact (h.off k hk).calls b hb hbid
        · rw [List.mem_singleton.mp hb, hid] at hbid
          obtain rfl : id = k := Option.some.inj hbid
          rcases hk with hk | hk
          · exact absurd hcurrent hk
          · exact absurd hk (Nat.not_le.mpr hgone)

/-- A call that is still open is answered. -/
theorem Held.answer (h : Held gone s) {call : Nat} {c : Call} (hc : s.calls[call]? = some c)
    (hopen : c.reply.isSome = false) (outcome : Preview.Outcome) :
    Held gone (s.setReply call outcome) := by
  obtain ⟨hlt, rfl⟩ := List.getElem?_eq_some_iff.mp hc
  have hrequests : (s.setReply call outcome).requests = s.requests := by
    rw [requests, asked_setReply s hlt]
    rfl
  refine ⟨hrequests ▸ h.nodup, hrequests ▸ h.le, h.begun, fun k hk => ?_, h.base⟩
  refine ⟨(h.off k hk).begins, fun b hb hbid => ?_⟩
  rcases mem_calls_setReply hlt hb with rfl | hb
  · -- The call was not withdrawn, since it was open.
    refine ((h.off k hk).calls _ (List.getElem_mem hlt) hbid).imp_right fun hreply => ?_
    refine .inr (hreply.resolve_left fun hwithdrawn => ?_)
    rw [hwithdrawn] at hopen
    cases hopen
  · exact (h.off k hk).calls b (mem_calls_of_around hb) hbid

/-! ## Giving up -/

variable [Subject δ]

/-- Once the current request is withdrawn all requests were given up. -/
theorem Held.withdrawCurrent (h : Held gone s) (hstarts : u.starts = s.starts)
    (hcalls : u.calls = s.calls) :
    let t := s.preview.withdrawCurrent.foldl performPreview u
    Withdraws u t ∧ ∀ id, Off s.preview.running t.starts t.calls id := by
  have hnodup : u.requests.Nodup := by
    unfold requests
    rw [hstarts, hcalls]
    exact h.nodup
  have hothers : ∀ id, s.preview.current ≠ some id → Off s.preview.running u.starts u.calls id := by
    intro id hid
    rw [hstarts, hcalls]
    exact h.off id (.inl hid)
  unfold Preview.withdrawCurrent
  split
  · rename_i id hcurrent
    split
    · obtain ⟨hwithdraws, hoff⟩ := withdraws_withdraw u id hnodup s.preview.running
      refine ⟨hwithdraws, fun k => ?_⟩
      by_cases hk : k = id
      · exact hk ▸ hoff
      · refine hwithdraws.off (hothers k ?_)
        rw [hcurrent]
        exact fun heq => hk (Option.some.inj heq).symm
    · -- The current request has ended.
      rename_i hended
      have hended : id ∉ s.preview.running := by simpa using hended
      refine ⟨.refl u, fun k => ?_⟩
      by_cases hk : k = id
      · subst hk
        refine ⟨fun hmem => hended (h.begun k (hstarts ▸ hmem)), fun c _ _ => .inr (.inr hended)⟩
      · refine hothers k ?_
        rw [hcurrent]
        exact fun heq => hk (Option.some.inj heq).symm
  · rename_i hnone
    refine ⟨.refl u, fun k => hothers k ?_⟩
    rw [hnone]
    exact Option.some_ne_none k |>.symm

/-- A newer request takes the place of the current one. -/
theorem Held.commence (h : Held gone s) (hstarts : u.starts = s.starts)
    (hcalls : u.calls = s.calls) (hpreview : u.preview = s.preview.pauseOver.1) :
    let t := s.preview.pauseOver.2.foldl performPreview u
    Held gone t ∧ Calm u t := by
  obtain ⟨hwithdraws, hoff⟩ := h.withdrawCurrent hstarts hcalls
  let v := s.preview.withdrawCurrent.foldl performPreview u
  let id := s.preview.latest + 1
  have hfold : s.preview.pauseOver.2.foldl performPreview u = v.enqueue (.request id) :=
    List.foldl_append ..
  rw [hfold]
  have hprev : (v.enqueue (.request id)).preview = s.preview.pauseOver.1 :=
    hwithdraws.preview.trans hpreview
  have hv : (v.enqueue (.request id)).starts = v.starts ++ [(id, true)] := List.filterMap_append
  have hrequests : v.requests = s.requests := by
    rw [hwithdraws.requests]
    unfold requests
    rw [hstarts, hcalls]
  have hperm : (v.enqueue (.request id)).requests.Perm (id :: s.requests) := by
    rw [← hrequests]
    unfold requests
    rw [hv, List.map_append, List.append_assoc]
    exact List.perm_middle
  have hnew : id ∉ s.requests := fun hmem => Nat.not_succ_le_self _ (h.le id hmem)
  refine ⟨⟨hperm.nodup_iff.mpr (List.nodup_cons.mpr ⟨hnew, h.nodup⟩), ?_, ?_, ?_, ?_⟩,
    hwithdraws.toCalm.trans (calm_enqueue v rfl)⟩
  · intro k hk
    rw [hprev]
    rcases List.mem_cons.mp (hperm.subset hk) with rfl | hk
    · exact Nat.le_refl _
    · exact Nat.le_succ_of_le (h.le k hk)
  · intro k hk
    rw [hprev]
    rw [hv] at hk
    refine List.mem_append.mpr ?_
    rcases List.mem_append.mp hk with hk | hk
    · exact .inl (h.begun k (hstarts ▸ hwithdraws.begins k hk))
    · cases List.mem_singleton.mp hk
      exact .inr List.mem_cons_self
  · intro k hk
    rw [hprev] at hk ⊢
    have hne : k ≠ id := by
      rintro rfl
      rcases hk with hk | hk
      · exact hk rfl
      · exact Nat.not_succ_le_self _ (Nat.le_trans hk h.base)
    rw [hv]
    refine ⟨fun hmem => ?_, fun c hc hid => ?_⟩
    · rcases List.mem_append.mp hmem with hmem | hmem
      · exact (hoff k).begins hmem
      · cases List.mem_singleton.mp hmem
        exact hne rfl
    · refine ((hoff k).calls c hc hid).imp_right fun hreply => hreply.imp_right fun hnot hmem => ?_
      rcases List.mem_append.mp hmem with hmem | hmem
      · exact hnot hmem
      · exact hne (List.mem_singleton.mp hmem)
  · rw [hprev]
    exact Nat.le_succ_of_le h.base

/-- When all is given up, every request until then was given up. -/
theorem Held.cancel (h : Held gone s) (hstarts : u.starts = s.starts)
    (hcalls : u.calls = s.calls) (hpreview : u.preview = s.preview.cancel.1) :
    let t := s.preview.withdrawCurrent.foldl performPreview u
    Held s.preview.latest t ∧ Calm u t := by
  obtain ⟨hwithdraws, hoff⟩ := h.withdrawCurrent hstarts hcalls
  let v := s.preview.withdrawCurrent.foldl performPreview u
  have hprev : v.preview = s.preview.cancel.1 := hwithdraws.preview.trans hpreview
  have hrequests : v.requests = s.requests := by
    rw [hwithdraws.requests]
    unfold requests
    rw [hstarts, hcalls]
  refine ⟨⟨?_, ?_, ?_, ?_, ?_⟩, hwithdraws.toCalm⟩
  · rw [hrequests]
    exact h.nodup
  · rw [hrequests, hprev]
    exact h.le
  · exact fun id hid => absurd hid (hoff id).begins
  · intro id _
    rw [hprev]
    exact hoff id
  · rw [hprev]
    exact Nat.le_refl _

end

end Retouch.Session
