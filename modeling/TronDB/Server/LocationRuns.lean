import TronDB.Server.Converged

/-! The subscriber over a run of the node. -/
namespace TronDB.Server
open TronDB.Core TronDB.Engine

namespace LocationNode

/-! ### What a step leaves of the requests -/

section Requests
variable {x x' : LocationNode} {i : Nat} {r new : LocationRequest} {u c : LocationUpdate}

theorem maySend_mono (written : ∀ u, x'.Written u → x.Written u) (may : x'.MaySend r u) :
    x.MaySend r u := by
  unfold MaySend at may ⊢
  cases phase : r.phase with
  | broadcasting updates =>
    rw [phase] at may
    exact may
  | running | appended _ | logged _ | executed =>
    rw [phase] at may
    exact ⟨written u may.1, may.2⟩

theorem sendable_of (written : ∀ u, x'.Written u → x.Written u)
    (requests : ∀ r' ∈ x'.requests, r' ∈ x.requests ∨ ∃ r ∈ x.requests,
      r'.entry = r.entry ∧ ∀ u, x'.MaySend r' u → x.MaySend r u)
    (sendable : x'.Sendable u) : x.Sendable u := by
  obtain ⟨r', among, entry, may⟩ := sendable
  rcases requests r' among with old | ⟨r, old, same, less⟩
  · exact ⟨r', old, entry, maySend_mono written may⟩
  · exact ⟨r, old, same ▸ entry, less u may⟩

theorem written_answer (written : (x.answer i).Written u) : x.Written u := by
  rcases written with logged | ⟨r', among, updates, phase, listed⟩
  · exact .inl logged
  · exact .inr ⟨r', mem_answer among, updates, phase, listed⟩

theorem sendable_answer (sendable : (x.answer i).Sendable u) : x.Sendable u :=
  sendable_of (fun _ => written_answer) (fun _ among => .inl (mem_answer among)) sendable

theorem written_setRequest (idle : ∀ updates, new.phase ≠ .appended updates)
    (written : (x.setRequest i new).Written u) : x.Written u := by
  rcases written with logged | ⟨r', among, updates, phase, listed⟩
  · exact .inl logged
  · rcases mem_setRequest among with rfl | old
    · exact absurd phase (idle updates)
    · exact .inr ⟨r', old, updates, phase, listed⟩

theorem waiting_answer (waiting : (x.answer i).Waiting c) : x.Waiting c := by
  obtain ⟨r', among, listed⟩ := waiting
  exact ⟨r', mem_answer among, listed⟩

theorem waiting_setRequest (waiting : (x.setRequest i new).Waiting c) :
    c ∈ new.current ∨ x.Waiting c := by
  obtain ⟨r', among, listed⟩ := waiting
  rcases mem_setRequest among with rfl | old
  · exact .inl listed
  · exact .inr ⟨r', old, listed⟩

theorem kept_same (log : ∀ u, u ∈ x.log → u ∈ x'.log) (kept : x.Kept r u) : x'.Kept r u := by
  unfold Kept at kept ⊢
  cases phase : r.phase with
  | broadcasting updates =>
    rw [phase] at kept
    exact kept
  | appended updates =>
    rw [phase] at kept
    exact ⟨kept.1.imp_left (log u), kept.2⟩
  | running | logged _ | executed =>
    rw [phase] at kept
    exact ⟨log u kept.1, kept.2⟩

variable (found : x.requests[i]? = some r)
include found

theorem still_waiting_answer (waiting : x.Waiting c) : c ∈ r.current ∨ (x.answer i).Waiting c := by
  obtain ⟨r', among, listed⟩ := waiting
  rcases kept_answer found among with rfl | other
  · exact .inl listed
  · exact .inr ⟨r', other, listed⟩

theorem still_waiting_setRequest (waiting : x.Waiting c) :
    c ∈ r.current ∨ (x.setRequest i new).Waiting c := by
  obtain ⟨r', among, listed⟩ := waiting
  rcases kept_setRequest found new among with rfl | other
  · exact .inl listed
  · exact .inr ⟨r', other, listed⟩

theorem still_owes_answer (owes : x.Owes u) :
    r.entry ≠ .executeTql ∧ u ∈ r.own ∨ (x.answer i).Owes u := by
  obtain ⟨r', among, entry, own⟩ := owes
  rcases kept_answer found among with rfl | other
  · exact .inl ⟨entry, own⟩
  · exact .inr ⟨r', other, entry, own⟩

theorem still_owes_setRequest (entry : new.entry = r.entry) (own : ∀ u ∈ r.own, u ∈ new.own)
    (owes : x.Owes u) : (x.setRequest i new).Owes u := by
  obtain ⟨r', among, tells, listed⟩ := owes
  rcases kept_setRequest found new among with rfl | other
  · exact ⟨new, new_setRequest found new, entry ▸ tells, own u listed⟩
  · exact ⟨r', other, tells, listed⟩

end Requests

/-! ### The quiet steps -/

section Quiet
variable {x : LocationNode} {s : Subscriber} {lsn i : Nat} {r : LocationRequest}

/-- Another phase of a request in which it may send no more. -/
theorem Following.phase (following : x.Following s lsn) (found : x.requests[i]? = some r)
    {x' : LocationNode} {phase : Phase}
    (requests : x'.requests = (x.setRequest i { r with phase }).requests)
    (table : x'.table = x.table) (log : ∀ u, u ∈ x.log → u ∈ x'.log)
    (current : LocationRequest.current { r with phase } = r.current)
    (written : ∀ u, x'.Written u → x.Written u)
    (may : ∀ u, x'.MaySend { r with phase } u → x.MaySend r u)
    (kept : ∀ u, x.Kept r u → x'.Kept { r with phase } u) : x'.Following s lsn := by
  have among : r ∈ x.requests := List.mem_of_getElem? found
  refine following.carry (fun u _ => sendable_of written fun r' there => ?_) (fun c => ?_)
    (fun u _ owes => .inl ?_) (fun k _ => by rw [table]) (fun k => .inl rfl) ?_
  · rw [requests] at there
    rcases mem_setRequest there with rfl | old
    · exact .inr ⟨r, among, rfl, may⟩
    · exact .inl old
  · constructor
    · rintro ⟨r', there, listed⟩
      rw [requests] at there
      rcases mem_setRequest there with rfl | old
      · exact ⟨r, among, current ▸ listed⟩
      · exact ⟨r', old, listed⟩
    · rintro ⟨r', there, listed⟩
      rcases kept_setRequest found { r with phase } there with rfl | other
      · refine ⟨{ r' with phase }, requests ▸ new_setRequest found _, ?_⟩
        rw [current]
        exact listed
      · exact ⟨r', requests ▸ other, listed⟩
  · obtain ⟨r', there, tells, own⟩ := owes
    rcases kept_setRequest found { r with phase } there with rfl | other
    · exact ⟨{ r' with phase }, requests ▸ new_setRequest found _, tells, own⟩
    · exact ⟨r', requests ▸ other, tells, own⟩
  · intro r' there tells u listed above
    rw [requests] at there
    rcases mem_setRequest there with rfl | old
    · rw [current] at listed
      exact kept u (following.kept r among tells u listed above)
    · exact kept_same log (following.kept r' old tells u listed above)

theorem Following.gone (following : x.Following s lsn) (found : x.requests[i]? = some r)
    (idle : r.current = []) (told : x.Told s lsn r) : (x.answer i).Following s lsn := by
  refine following.carry (fun u _ => sendable_answer) (fun c => ⟨waiting_answer, fun waits => ?_⟩)
    (fun u above owes => ?_) (fun k _ => rfl) (fun k => .inl rfl) ?_
  · refine (still_waiting_answer found waits).resolve_left ?_
    rw [idle]
    exact List.not_mem_nil
  · rcases still_owes_answer found owes with ⟨tells, own⟩ | still
    · exact .inr (told tells u own above)
    · exact .inl still
  · intro r' there tells u listed above
    exact kept_same (fun _ logged => logged) (following.kept r' (mem_answer there) tells u listed above)

theorem Following.changed (following : x.Following s lsn) {ops : List LocationOp}
    (leaves : x.LeavesInPlay s lsn ops) (records : Nat) :
    Following { x with table := ops.foldl LocationOp.run x.table, head := x.head + records } s lsn :=
  following.carry (fun _ _ may => may) (fun _ => .rfl) (fun _ _ owes => .inl owes)
    leaves (fun _ => .inl rfl) following.kept

end Quiet
/-! ### The steps of an INSERT -/

section Insert
variable {x : LocationNode} {s : Subscriber} {lsn i : Nat} {r : LocationRequest}

section Appended
variable {x' : LocationNode} {updates : List LocationUpdate}
  (requests : ∀ r' ∈ x'.requests, r' = { r with phase := .appended updates } ∨ r' ∈ x.requests)
  (log : x'.log = x.log)

include requests log in
theorem written_appended {u : LocationUpdate} (there : x'.Written u) : x.Written u ∨ u ∈ updates := by
  rcases there with logged | ⟨r', there, updates', phase, listed⟩
  · exact .inl (.inl (log ▸ logged))
  · rcases requests r' there with rfl | old
    · cases phase
      exact .inr listed
    · exact .inl (.inr ⟨r', old, updates', phase, listed⟩)

include requests log in
theorem sendable_appended (among : r ∈ x.requests) (running : r.phase = .running) {u : LocationUpdate}
    (may : x'.Sendable u) : x.Sendable u ∨ u ∈ updates := by
  obtain ⟨r', there, tells, may⟩ := may
  rcases requests r' there with rfl | old
  · rcases written_appended requests log may.1 with before | new
    · refine .inl ⟨r, among, tells, ?_⟩
      unfold MaySend
      rw [running]
      exact ⟨before, may.2⟩
    · exact .inr new
  · unfold MaySend at may
    cases phase : r'.phase with
    | broadcasting updates' =>
      refine .inl ⟨r', old, tells, ?_⟩
      unfold MaySend
      rw [phase] at may ⊢
      exact may
    | running | appended _ | logged _ | executed =>
      rw [phase] at may
      rcases written_appended requests log may.1 with before | new
      · refine .inl ⟨r', old, tells, ?_⟩
        unfold MaySend
        rw [phase]
        exact ⟨before, may.2⟩
      · exact .inr new

end Appended

theorem Following.appended (following : x.Following s lsn) (sound : x.Sound)
    (found : x.requests[i]? = some r) (running : r.phase = .running) {e : Entity}
    (begins : x.Begins lsn e) :
    Following ({ x with head := x.head + ((insertUpdates x.head e).length + 3) }.setRequest i
      { r with phase := .appended (insertUpdates x.head e) }) s lsn := by
  have among : r ∈ x.requests := List.mem_of_getElem? found
  have idle : r.current = [] := by simp only [LocationRequest.current, running]
  generalize head : x.head + ((insertUpdates x.head e).length + 3) = top
  have entries (u : LocationUpdate) (new : u ∈ insertUpdates x.head e) :
      (u.key, u.descriptor) ∈ locationEntries e :=
    insertUpdates_entries x.head e ▸ List.mem_map_of_mem new
  have bound (u : LocationUpdate) (new : u ∈ insertUpdates x.head e) : x.head < u.lsn :=
    (insertUpdates_bound new).1
  have distinct := insertUpdates_distinct x.head e
  generalize insertUpdates x.head e = updates at *
  generalize target : ({ x with head := top }.setRequest i { r with phase := .appended updates }) = x'
  have requests : ∀ r' ∈ x'.requests, r' = { r with phase := .appended updates } ∨ r' ∈ x.requests := by
    rw [← target]
    exact fun r' there => mem_setRequest there
  have table : x'.table = x.table := by rw [← target]; rfl
  have log : x'.log = x.log := by rw [← target]; rfl
  have sendable (u : LocationUpdate) (may : x'.Sendable u) : x.Sendable u ∨ u ∈ updates :=
    sendable_appended requests log among running may
  have waiting (c : LocationUpdate) (waits : x'.Waiting c) : x.Waiting c ∨ c ∈ updates := by
    obtain ⟨r', there, listed⟩ := waits
    rcases requests r' there with rfl | old
    · exact .inr listed
    · exact .inl ⟨r', old, listed⟩
  have newly (c : LocationUpdate) (new : c ∈ updates) : x'.Waiting c := by
    rw [← target]
    exact ⟨_, new_setRequest found _, new⟩
  have still (c : LocationUpdate) (waits : x.Waiting c) : x'.Waiting c := by
    rw [← target]
    refine (still_waiting_setRequest found waits).resolve_left ?_
    rw [idle]
    exact List.not_mem_nil
  refine ⟨fun u may above => ?_, fun c u waits may above same => ?_,
    fun r' there tells u listed above => ?_, fun k => ?_⟩
  · rw [table]
    rcases sendable u may with before | new
    · rcases following.agree u before above with there | ⟨c, waits, own⟩
      · exact .inl there
      · exact .inr ⟨c, still c waits, own⟩
    · exact .inr ⟨u, newly u new, rfl, rfl⟩
  · rcases waiting c waits with waits | new <;> rcases sendable u may with may | new'
    · exact following.alike c u waits may above same
    · exact ((begins _ (entries u new')).2 c waits same.symm).symm
    · exact (begins _ (entries c new)).1 u may above same
    · rw [List.inj_on_of_nodup_map distinct new' new same]
  · rcases requests r' there with rfl | old
    · rcases List.mem_append.mp listed with own | new
      · have kept := following.kept r among tells u (List.mem_append_left _ own) above
        unfold Kept at kept
        rw [running] at kept
        exact ⟨.inl (log ▸ kept.1), kept.2⟩
      · exact ⟨.inr new, Nat.lt_of_le_of_lt (sound.before r among) (bound u new)⟩
    · exact kept_same (fun _ logged => log ▸ logged) (following.kept r' old tells u listed above)
  · rw [table]
    rcases following.held k with none_ | there | ⟨u, owes, own⟩ | ⟨c, waits, own⟩
    · exact .inl none_
    · exact .inr (.inl there)
    · refine .inr (.inr (.inl ⟨u, ?_, own⟩))
      rw [← target]
      exact still_owes_setRequest found rfl (fun _ own => own) owes
    · exact .inr (.inr (.inr ⟨c, still c waits, own⟩))

theorem registered_at (t : LocationTable) {updates : List LocationUpdate}
    (distinct : (updates.map LocationUpdate.key).Nodup) (k : ReprKey) :
    (∃ c ∈ updates, c.key = k ∧ placedAt (registerUpdates t updates) k = some (placement c.descriptor)) ∨
      placedAt (registerUpdates t updates) k = placedAt t k := by
  by_cases there : ∃ c ∈ updates, c.key = k
  · obtain ⟨c, listed, rfl⟩ := there
    exact .inl ⟨c, listed, rfl, placedAt_registered t distinct listed⟩
  · exact .inr (placedAt_unregistered t fun c listed same => there ⟨c, listed, same⟩)

theorem Following.registered (following : x.Following s lsn) {x' : LocationNode}
    {updates : List LocationUpdate} (distinct : (updates.map LocationUpdate.key).Nodup)
    (waited : ∀ c ∈ updates, x.Waiting c)
    (table : x'.table = registerUpdates x.table updates)
    (sendable : ∀ u, x'.Sendable u → x.Sendable u) (waiting : ∀ c, x'.Waiting c → x.Waiting c)
    (still : ∀ c, x.Waiting c → c ∈ updates ∨ x'.Waiting c)
    (owes : ∀ u, lsn < u.lsn → x.Owes u → x'.Owes u ∨ s.held lsn u.key = none ∨
      s.held lsn u.key = some (placedAt x.table u.key))
    (meets : ∀ c ∈ updates, x.Meets s lsn c ∨ x'.Owes c ∧ lsn < c.lsn)
    (kept : ∀ r ∈ x'.requests, r.entry ≠ .executeTql → ∀ u ∈ r.own ++ r.current, lsn < u.lsn →
      x'.Kept r u) : x'.Following s lsn := by
  refine ⟨fun u may above => ?_, fun c u waits may => following.alike c u (waiting c waits)
    (sendable u may), kept, fun k => ?_⟩
  · rw [table]
    have old := sendable u may
    rcases registered_at x.table distinct u.key with ⟨c, listed, same, placed⟩ | unchanged
    · rw [placed, following.alike c u (waited c listed) old above same.symm]
      exact .inl rfl
    · rw [unchanged]
      rcases following.agree u old above with there | ⟨c, waits, same, own⟩
      · exact .inl there
      · rcases still c waits with listed | waits
        · rw [← unchanged, ← same, placedAt_registered x.table distinct listed, own]
          exact .inl rfl
        · exact .inr ⟨c, waits, same, own⟩
  · have equal (same : s.held lsn k = some (placedAt x.table k)) : s.held lsn k = none ∨
        s.held lsn k = some (placedAt x'.table k) ∨
        (∃ u, x'.Owes u ∧ u.key = k ∧ lsn < u.lsn) ∨
        ∃ c, x'.Waiting c ∧ c.key = k ∧ s.held lsn k = some (some (placement c.descriptor)) := by
      rw [table]
      rcases registered_at x.table distinct k with ⟨c, listed, rfl, placed⟩ | unchanged
      · rw [placed]
        rcases meets c listed with (none_ | own | before) | owed
        · exact .inl none_
        · exact .inr (.inl own)
        · rw [same, before]
          exact .inr (.inl rfl)
        · exact .inr (.inr (.inl ⟨c, owed.1, rfl, owed.2⟩))
      · rw [unchanged]
        exact .inr (.inl same)
    rcases following.held k with none_ | same | ⟨u, owed, rfl, above⟩ | ⟨c, waits, rfl, own⟩
    · exact .inl none_
    · exact equal same
    · rcases owes u above owed with still | none_ | same
      · exact .inr (.inr (.inl ⟨u, still, rfl, above⟩))
      · exact .inl none_
      · exact equal same
    · rcases still c waits with listed | waits
      · rw [table, placedAt_registered x.table distinct listed]
        exact .inr (.inl own)
      · exact .inr (.inr (.inr ⟨c, waits, rfl, own⟩))

theorem Following.failed (following : x.Following s lsn) (sound : x.Sound)
    (found : x.requests[i]? = some r) {updates : List LocationUpdate}
    (logged : r.phase = .logged updates)
    (told : x.Told s lsn r) (meets : ∀ c ∈ updates, x.Meets s lsn c) :
    Following ({ x with table := registerUpdates x.table updates }.answer i) s lsn := by
  have among : r ∈ x.requests := List.mem_of_getElem? found
  have current := current_logged logged
  refine following.registered (current ▸ sound.distinct r among)
    (fun c listed => ⟨r, among, current ▸ listed⟩) rfl (fun u may => sendable_answer may)
    (fun c waits => waiting_answer waits)
    (fun c waits => current ▸ still_waiting_answer found waits) (fun u above owed => ?_)
    (fun c listed => .inl (meets c listed)) fun r' there tells u listed above => ?_
  · rcases still_owes_answer found owed with ⟨tells, own⟩ | still
    · exact .inr (told tells u own above)
    · exact .inl still
  · exact kept_same (fun _ logged => logged) (following.kept r' (mem_answer there) tells u listed above)

theorem Following.done (following : x.Following s lsn) (sound : x.Sound)
    (found : x.requests[i]? = some r) {updates : List LocationUpdate}
    (logged : r.phase = .logged updates)
    (meets : ∀ c ∈ updates, r.entry = .executeTql ∨ c.lsn ≤ lsn → x.Meets s lsn c) :
    Following ({ x with table := registerUpdates x.table updates }.setRequest i
      { r with own := r.own ++ updates, phase := .running }) s lsn := by
  have among : r ∈ x.requests := List.mem_of_getElem? found
  have current := current_logged logged
  have written (u : LocationUpdate)
      (there : ({ x with table := registerUpdates x.table updates }.setRequest i
        { r with own := r.own ++ updates, phase := .running }).Written u) : x.Written u :=
    written_setRequest (fun _ phase => by cases phase) there
  refine following.registered (current ▸ sound.distinct r among)
    (fun c listed => ⟨r, among, current ▸ listed⟩) rfl
    (fun u may => sendable_of written (fun r' there => ?_) may)
    (fun c waits => (waiting_setRequest waits).resolve_left List.not_mem_nil)
    (fun c waits => current ▸ still_waiting_setRequest found waits)
    (fun u above owed => .inl (still_owes_setRequest found rfl (fun _ => List.mem_append_left _) owed))
    (fun c listed => ?_) fun r' there tells u listed above => ?_
  · rcases mem_setRequest there with rfl | old
    · refine .inr ⟨r, among, rfl, fun u may => ?_⟩
      unfold MaySend
      rw [logged]
      exact ⟨written u may.1, may.2⟩
    · exact .inl old
  · by_cases silent : r.entry = .executeTql ∨ c.lsn ≤ lsn
    · exact .inl (meets c listed silent)
    · rw [not_or, Nat.not_le] at silent
      exact .inr ⟨⟨_, new_setRequest found _, silent.1, List.mem_append_right _ listed⟩, silent.2⟩
  · rcases mem_setRequest there with rfl | old
    · have listed : u ∈ r.own ++ r.current :=
        current ▸ (List.mem_append.mp listed).resolve_right List.not_mem_nil
      have kept := following.kept r among tells u listed above
      unfold Kept at kept
      rw [logged] at kept
      exact kept
    · exact kept_same (fun _ logged => logged) (following.kept r' old tells u listed above)

theorem places_answer {r' : LocationRequest} (there : r' ∈ (x.answer i).requests) :
    ∃ j, j ≠ i ∧ x.requests[j]? = some r' := List.mem_eraseIdx_iff_getElem?.mp there

theorem Following.refused (following : x.Following s lsn)
    (found : x.requests[i]? = some r) {updates : List LocationUpdate}
    (logged : r.phase = .logged updates)
    (told : x.Told s lsn r)
    (unspread : ∀ c ∈ updates, placedAt x.table c.key = some (placement c.descriptor) ∨
      x.Unspread s lsn i c) : (x.answer i).Following s lsn := by
  have current := current_logged logged
  refine ⟨fun u may above => ?_, fun c u waits may => following.alike c u (waiting_answer waits)
    (sendable_answer may), fun r' there tells u listed above => ?_, fun k => ?_⟩
  · rcases following.agree u (sendable_answer may) above with there | ⟨c, waits, same, own⟩
    · exact .inl there
    · rcases still_waiting_answer found waits with listed | waits
      · rcases unspread c (current ▸ listed) with placed | alone
        · rw [same, own] at placed
          exact .inl placed
        · obtain ⟨r', there, tells, may⟩ := may
          obtain ⟨j, other, place⟩ := places_answer there
          exact absurd same.symm (alone.2 j r' other place tells u
            (maySend_mono (fun _ => written_answer) may) above)
      · exact .inr ⟨c, waits, same, own⟩
  · exact kept_same (fun _ logged => logged) (following.kept r' (mem_answer there) tells u listed above)
  · rcases following.held k with none_ | same | ⟨u, owed, rfl, above⟩ | ⟨c, waits, rfl, own⟩
    · exact .inl none_
    · exact .inr (.inl same)
    · rcases still_owes_answer found owed with ⟨tells, own⟩ | still
      · rcases told tells u own above with none_ | same
        · exact .inl none_
        · exact .inr (.inl same)
      · exact .inr (.inr (.inl ⟨u, still, rfl, above⟩))
    · rcases still_waiting_answer found waits with listed | waits
      · rcases unspread c (current ▸ listed) with placed | alone
        · rw [own, ← placed]
          exact .inr (.inl rfl)
        · exact absurd own alone.1
      · exact .inr (.inr (.inr ⟨c, waits, rfl, own⟩))

end Insert
/-! ### What reaches the subscriber -/

theorem foldl_told (updates : List LocationUpdate) (lsn : Nat) (k : ReprKey)
    (held : Option (Option Placement)) :
    (∃ u ∈ updates, lsn < u.lsn ∧ u.key = k ∧ updates.foldl (fun held u =>
        if lsn < u.lsn ∧ u.key = k then some (some (placement u.descriptor)) else held) held =
          some (some (placement u.descriptor))) ∨
      (∀ u ∈ updates, lsn < u.lsn → u.key ≠ k) ∧ updates.foldl (fun held u =>
        if lsn < u.lsn ∧ u.key = k then some (some (placement u.descriptor)) else held) held = held := by
  induction updates generalizing held with
  | nil => exact .inr ⟨fun _ none_ => absurd none_ List.not_mem_nil, rfl⟩
  | cons u rest ih =>
    rw [List.foldl_cons]
    by_cases new : lsn < u.lsn ∧ u.key = k
    · rw [if_pos new]
      rcases ih (some (some (placement u.descriptor))) with ⟨u', listed, above, key, last⟩ | ⟨-, last⟩
      · exact .inl ⟨u', List.mem_cons_of_mem u listed, above, key, last⟩
      · exact .inl ⟨u, List.mem_cons_self, new.1, new.2, last⟩
    · rw [if_neg new]
      rcases ih held with ⟨u', listed, above, key, last⟩ | ⟨absent, last⟩
      · exact .inl ⟨u', List.mem_cons_of_mem u listed, above, key, last⟩
      · refine .inr ⟨fun u' listed above key => ?_, last⟩
        rcases List.mem_cons.mp listed with rfl | later
        · exact new ⟨above, key⟩
        · exact absent u' later above key

/-- Two beginnings come to the same once there is an update. -/
theorem foldl_starts (updates : List LocationUpdate) (lsn : Nat) (k : ReprKey)
    (a b : Option (Option Placement)) :
    let told := fun held u =>
      if lsn < u.lsn ∧ u.key = k then some (some (placement u.descriptor)) else held
    updates.foldl told a = updates.foldl told b ∨
      updates.foldl told a = a ∧ updates.foldl told b = b := by
  intro told
  induction updates generalizing a b with
  | nil => exact .inr ⟨rfl, rfl⟩
  | cons u rest ih =>
    rw [List.foldl_cons, List.foldl_cons]
    by_cases new : lsn < u.lsn ∧ u.key = k
    · have same (held : Option (Option Placement)) :
          told held u = some (some (placement u.descriptor)) := if_pos new
      rw [same a, same b]
      exact .inl rfl
    · have unchanged (held : Option (Option Placement)) : told held u = held := if_neg new
      rw [unchanged a, unchanged b]
      exact ih a b

section Subscribers
variable {x : LocationNode} {s : Subscriber} {lsn i : Nat} {r : LocationRequest}

theorem Following.sent (following : x.Following s lsn) (sound : x.Sound)
    (found : x.requests[i]? = some r) {updates : List LocationUpdate}
    (broadcasting : r.phase = .broadcasting updates) :
    Following ((x.receive updates).answer i) { s with queue := s.queue ++ updates } lsn := by
  have among : r ∈ x.requests := List.mem_of_getElem? found
  have tells : r.entry ≠ .executeTql := sound.tells r among (by rw [broadcasting]; rfl)
  have idle : r.current = [] := by simp only [LocationRequest.current, broadcasting]
  have still (c : LocationUpdate) (waits : x.Waiting c) : ((x.receive updates).answer i).Waiting c := by
    refine (still_waiting_answer found waits).resolve_left ?_
    rw [idle]
    exact List.not_mem_nil
  have sendable (u : LocationUpdate) (listed : u ∈ updates) : x.Sendable u := by
    refine ⟨r, among, tells, ?_⟩
    unfold MaySend
    rw [broadcasting]
    exact listed
  refine ⟨fun u may above => ?_, fun c u waits may => following.alike c u (waiting_answer waits)
    (sendable_answer may), fun r' there tells u listed above => ?_, fun k => ?_⟩
  · rcases following.agree u (sendable_answer may) above with there | ⟨c, waits, same⟩
    · exact .inl there
    · exact .inr ⟨c, still c waits, same⟩
  · exact kept_same (fun _ logged => logged) (following.kept r' (mem_answer there) tells u listed above)
  · unfold Subscriber.held
    rw [List.foldl_append]
    rcases foldl_told updates lsn k (s.held lsn k) with
      ⟨u, listed, above, rfl, last⟩ | ⟨absent, last⟩
    · rw [Subscriber.held] at last
      rw [last]
      rcases following.agree u (sendable u listed) above with there | ⟨c, waits, same, own⟩
      · exact .inr (.inl (congrArg some there).symm)
      · exact .inr (.inr (.inr ⟨c, still c waits, same, by rw [own]⟩))
    · rw [Subscriber.held] at last
      rw [last, ← Subscriber.held]
      rcases following.held k with none_ | same | ⟨u, owed, rfl, above⟩ | ⟨c, waits, same⟩
      · exact .inl none_
      · exact .inr (.inl same)
      · rcases still_owes_answer found owed with ⟨-, own⟩ | still
        · have kept := following.kept r among tells u (List.mem_append_left _ own) above
          unfold Kept at kept
          rw [broadcasting] at kept
          exact absurd rfl (absent u kept above)
        · exact .inr (.inr (.inl ⟨u, still, rfl, above⟩))
      · exact .inr (.inr (.inr ⟨c, still c waits, same⟩))

theorem Sound.written (sound : x.Sound) (u : LocationUpdate) (written : x.Written u) :
    u.lsn ≤ x.head := by
  rcases written with logged | ⟨r, among, updates, phase, listed⟩
  · exact sound.log u logged
  · exact sound.current among u (current_appended phase ▸ listed)

theorem following_head (sound : x.Sound) (subscribed : x.subscriber = some s) (unread : s.lsn = none) :
    x.Following { s with lsn := some x.head } x.head := by
  have below (u : LocationUpdate) (may : x.Sendable u) : u.lsn ≤ x.head := by
    obtain ⟨r, among, -, may⟩ := may
    unfold MaySend at may
    cases phase : r.phase with
    | broadcasting updates =>
      rw [phase] at may
      exact sound.sending among u (sending_broadcasting phase ▸ may)
    | running | appended _ | logged _ | executed =>
      rw [phase] at may
      exact sound.written u may.1
  refine ⟨fun u may above => absurd (below u may) (Nat.not_le.mpr above),
    fun c u _ may above => absurd (below u may) (Nat.not_le.mpr above),
    fun r among _ u listed above => ?_, fun k => .inl ?_⟩
  · have bound : u.lsn ≤ x.head := by
      rcases List.mem_append.mp listed with own | current
      · exact sound.own among u own
      · exact sound.current among u current
    exact absurd bound (Nat.not_le.mpr above)
  · unfold Subscriber.held
    dsimp only
    rw [sound.under s subscribed unread]
    rcases foldl_told s.queue x.head k none with
      ⟨u, listed, above, -⟩ | ⟨-, last⟩
    · exact absurd (sound.queue s subscribed u listed) (Nat.not_le.mpr above)
    · exact last

theorem held_snapshot (untaken : s.table = none) (t : LocationTable) (k : ReprKey) :
    Subscriber.held { s with table := some (.restore (t.snapshot lsn)) } lsn k = s.held lsn k ∨
      s.held lsn k = none ∧
        Subscriber.held { s with table := some (.restore (t.snapshot lsn)) } lsn k =
          some (placedAt t k) := by
  unfold Subscriber.held
  dsimp only
  rw [untaken, Option.map_none, Option.map_some, placedAt_restore]
  rcases foldl_starts s.queue lsn k (some (placedAt t k)) none with same | ⟨last, none_⟩
  · exact .inl same
  · exact .inr ⟨none_, last⟩

theorem held_take (read : s.lsn = some lsn) (k : ReprKey) : s.take.held lsn k = s.held lsn k := by
  unfold Subscriber.take
  split
  · rename_i u rest lsn' table queue read' taken
    cases read.symm.trans read'
    unfold Subscriber.held
    dsimp only
    rw [queue, taken, List.foldl_cons, Option.map_some, Option.map_some]
    congr 1
    by_cases above : lsn < u.lsn
    · rw [if_pos above, placedAt_register]
      by_cases same : u.key = k
      · rw [if_pos same, if_pos ⟨above, same⟩]
      · rw [if_neg same, if_neg fun both => same both.2]
    · rw [if_neg above, if_neg fun both => above both.1]
  · rfl

end Subscribers

/-! ### Runs -/

/-- A subscriber that has read its LSN follows the node. -/
structure Followed (x : LocationNode) : Prop where
  sound : x.Sound
  follows : ∀ s lsn, x.subscriber = some s → s.lsn = some lsn → x.Following s lsn

theorem followed_start (table : LocationTable) (head : Nat) : (start table head).Followed :=
  ⟨start_sound table head, fun _ _ none_ => by cases none_⟩

section Runs
variable {x : LocationNode}

theorem followed_request (followed : x.Followed) {i : Nat} {r : LocationRequest}
    (found : x.requests[i]? = some r) (step : RequestStep)
    (orderly : ∀ s lsn, x.subscriber = some s → s.lsn = some lsn → x.OrderlyRequest s lsn i r step)
    {s : Subscriber} {lsn : Nat} (subscribed : (x.stepRequest i r step).subscriber = some s)
    (read : s.lsn = some lsn) : (x.stepRequest i r step).Following s lsn := by
  have among : r ∈ x.requests := List.mem_of_getElem? found
  have goes := stepRequest_goes x i r step
  generalize x.stepRequest i r step = x' at goes subscribed
  have idle (running : r.phase = .running) : r.current = [] := by
    simp only [LocationRequest.current, running]
  cases goes with
  | stays => exact followed.follows s lsn subscribed read
  | append e running =>
    have following := followed.follows s lsn subscribed read
    exact following.appended followed.sound found running (orderly s lsn subscribed read running)
  | commit updates appended =>
    have following := followed.follows s lsn subscribed read
    have written (u : LocationUpdate) (there : ({ x with log := x.log ++ updates }.setRequest i
        { r with phase := .logged updates }).Written u) : x.Written u := by
      rcases there with logged | ⟨r', there, updates', phase, listed⟩
      · rcases List.mem_append.mp logged with old | new
        · exact .inl old
        · exact .inr ⟨r, among, updates, appended, new⟩
      · rcases mem_setRequest there with rfl | old
        · cases phase
        · exact .inr ⟨r', old, updates', phase, listed⟩
    refine following.phase found rfl rfl (fun u => List.mem_append_left updates)
      (current_appended appended).symm written (fun u may => ?_) fun u kept => ?_
    · unfold MaySend
      rw [appended]
      exact ⟨written u may.1, may.2⟩
    · unfold Kept at kept
      rw [appended] at kept
      exact ⟨List.mem_append.mpr kept.1, kept.2⟩
  | refused updates logged =>
    have following := followed.follows s lsn subscribed read
    obtain ⟨told, unspread⟩ := orderly s lsn subscribed read updates logged
    exact following.refused found logged told unspread
  | failed updates logged =>
    have following := followed.follows s lsn subscribed read
    obtain ⟨told, meets⟩ := orderly s lsn subscribed read updates logged
    exact following.failed followed.sound found logged told meets
  | done updates logged =>
    have following := followed.follows s lsn subscribed read
    exact following.done followed.sound found logged (orderly s lsn subscribed read updates logged)
  | other records ops running =>
    have following := followed.follows s lsn subscribed read
    exact following.changed (orderly s lsn subscribed read running) records
  | completed running entry =>
    have following := followed.follows s lsn subscribed read
    have written (u : LocationUpdate)
        (there : (x.setRequest i { r with phase := .executed }).Written u) : x.Written u :=
      written_setRequest (fun _ phase => by cases phase) there
    refine following.phase found rfl rfl (fun u => id) (idle running).symm written (fun u may => ?_)
      fun u kept => ?_
    · unfold MaySend
      rw [running]
      exact ⟨written u may.1, may.2⟩
    · unfold Kept at kept
      rw [running] at kept
      exact kept
  | tql running entry =>
    have following := followed.follows s lsn subscribed read
    exact following.gone found (idle running) fun tells => absurd entry tells
  | fail running =>
    have following := followed.follows s lsn subscribed read
    exact following.gone found (idle running) (orderly s lsn subscribed read running)
  | unread executed entry alone =>
    have following := followed.follows s lsn subscribed read
    exact following.gone found (by simp only [LocationRequest.current, executed])
      (orderly s lsn subscribed read executed entry alone)
  | read executed =>
    have following := followed.follows s lsn subscribed read
    have none_ : r.current = [] := by simp only [LocationRequest.current, executed]
    refine following.phase found rfl rfl (fun u => id) none_.symm 
      (fun u => written_setRequest fun _ phase => by cases phase)
      (fun u may => ?_) fun u kept => ?_
    · obtain ⟨logged, above⟩ := mem_updatesSince.mp may
      unfold MaySend
      rw [executed]
      exact ⟨.inl logged, above⟩
    · unfold Kept at kept
      rw [executed] at kept
      exact mem_updatesSince.mpr kept
  | send updates broadcasting =>
    obtain ⟨s', there, rfl⟩ := Option.map_eq_some_iff.mp subscribed
    exact (followed.follows s' lsn there read).sent followed.sound found broadcasting

theorem Following.arrived {s : Subscriber} {lsn : Nat} (following : x.Following s lsn) (sound : x.Sound)
    (entry : Entry) : (x.step (.arrive entry)).Following s lsn := by
  have old (r : LocationRequest) (among : r ∈ (x.step (.arrive entry)).requests) :
      r ∈ x.requests ∨ r = ⟨entry, x.head, [], .running⟩ :=
    (List.mem_append.mp among).imp_right List.mem_singleton.mp
  have written (u : LocationUpdate) (there : (x.step (.arrive entry)).Written u) : x.Written u := by
    rcases there with logged | ⟨r, among, updates, phase, listed⟩
    · exact .inl logged
    · rcases old r among with old | rfl
      · exact .inr ⟨r, old, updates, phase, listed⟩
      · cases phase
  refine following.carry (fun u above may => ?_) (fun c => ⟨fun waits => ?_, fun waits => ?_⟩)
    (fun u above owes => .inl ?_) (fun _ _ => rfl) (fun _ => .inl rfl)
    fun r among tells u listed above => ?_
  · obtain ⟨r, among, tells, may⟩ := may
    rcases old r among with old | rfl
    · exact ⟨r, old, tells, maySend_mono written may⟩
    · exact absurd (sound.written u (written u may.1)) (Nat.not_le.mpr may.2)
  · obtain ⟨r, among, listed⟩ := waits
    rcases old r among with old | rfl
    · exact ⟨r, old, listed⟩
    · exact absurd listed List.not_mem_nil
  · obtain ⟨r, among, listed⟩ := waits
    exact ⟨r, List.mem_append_left _ among, listed⟩
  · obtain ⟨r, among, owes⟩ := owes
    exact ⟨r, List.mem_append_left _ among, owes⟩
  · rcases old r among with old | rfl
    · exact kept_same (fun _ logged => logged) (following.kept r old tells u listed above)
    · exact absurd listed List.not_mem_nil

theorem Following.truncated {s : Subscriber} {lsn : Nat} (following : x.Following s lsn) {upTo : Nat}
    (behind : ∀ r ∈ x.requests, r.entry ≠ .executeTql → r.sending = [] →
      ∀ u ∈ r.own ++ r.current, lsn < u.lsn → upTo < u.lsn) :
    (x.step (.truncate upTo)).Following s lsn := by
  have written (u : LocationUpdate) (there : (x.step (.truncate upTo)).Written u) : x.Written u :=
    there.imp_left List.mem_of_mem_filter
  refine following.carry (fun u _ => sendable_of written fun _ => .inl) (fun _ => .rfl)
    (fun _ _ owes => .inl owes) (fun _ _ => rfl) (fun _ => .inl rfl)
    fun r among tells u listed above => ?_
  have kept := following.kept r among tells u listed above
  have later (logged : u ∈ x.log) (idle : r.sending = []) : u ∈ x.log.filter fun u => upTo < u.lsn :=
    List.mem_filter.mpr ⟨logged, decide_eq_true
      (behind r among tells idle u listed above)⟩
  unfold Kept LocationRequest.sending at *
  cases phase : r.phase with
  | broadcasting updates =>
    rw [phase] at kept
    exact kept
  | appended updates =>
    rw [phase] at kept later
    exact ⟨kept.1.imp_left (later · rfl), kept.2⟩
  | running | logged _ | executed =>
    rw [phase] at kept later
    exact ⟨later kept.1 rfl, kept.2⟩

theorem followed_step (followed : x.Followed) (step : NodeStep) (orderly : x.Orderly step) :
    (x.step step).Followed := by
  refine ⟨step_sound followed.sound step, fun s lsn subscribed read => ?_⟩
  cases step with
  | arrive entry =>
    exact (followed.follows s lsn subscribed read).arrived followed.sound entry
  | request i step =>
    unfold LocationNode.step at subscribed ⊢
    dsimp only at subscribed ⊢
    cases found : x.requests[i]? with
    | none =>
      rw [found] at subscribed
      exact followed.follows s lsn subscribed read
    | some r =>
      rw [found] at subscribed
      exact followed_request followed found step
        (fun s lsn subscribed read => orderly s lsn subscribed read r found) subscribed read
  | background records ops =>
    exact (followed.follows s lsn subscribed read).changed (orderly s lsn subscribed read) records
  | truncate upTo =>
    exact (followed.follows s lsn subscribed read).truncated (orderly s lsn subscribed read)
  | connect connected =>
    have following := followed.follows s lsn subscribed read
    exact ⟨following.agree, following.alike, following.kept, following.held⟩
  | subscribe =>
    obtain rfl := Option.some.inj subscribed
    cases there : x.subscriber with
    | none =>
      rw [there] at read
      cases read
    | some s =>
      rw [there] at read
      have following := followed.follows s lsn there read
      exact ⟨following.agree, following.alike, following.kept, following.held⟩
  | readLsn =>
    obtain ⟨s', there, rfl⟩ := Option.map_eq_some_iff.mp subscribed
    cases before : s'.lsn with
    | none =>
      rw [before] at read
      cases read
      have following := following_head followed.sound there before
      exact ⟨following.agree, following.alike, following.kept, following.held⟩
    | some lsn' =>
      rw [before] at read
      cases read
      have following := followed.follows s' lsn' there before
      exact ⟨following.agree, following.alike, following.kept, following.held⟩
  | takeSnapshot =>
    obtain ⟨s', there, rfl⟩ := Option.map_eq_some_iff.mp subscribed
    cases before : s'.lsn with
    | none =>
      rw [before] at read
      cases before.symm.trans read
    | some lsn' =>
      rw [before] at read
      cases read
      have following := followed.follows s' lsn there before
      refine following.carry (fun u _ may => may) (fun _ => .rfl) (fun _ _ owes => .inl owes)
        (fun _ _ => rfl) (fun k => ?_) following.kept
      cases taken : s'.table with
      | none => exact held_snapshot taken x.table k
      | some t =>
        refine .inl ?_
        unfold Subscriber.held
        dsimp only
        rw [taken]
        rfl
  | deliver =>
    obtain ⟨s', there, rfl⟩ := Option.map_eq_some_iff.mp subscribed
    rw [take_lsn] at read
    have following := followed.follows s' lsn there read
    refine ⟨following.agree, following.alike, following.kept, fun k => ?_⟩
    rw [held_take read]
    exact following.held k

/-- A subscriber that has its snapshot holds the node's table whenever all statements are answered
and all deltas processed, in every run whose steps lead to nothing it is not told of. -/
theorem subscriber_converges (table : LocationTable) (head : Nat) (run : List NodeStep)
    (orderly : ∀ p ∈ Run.taken step (start table head) run, p.1.Orderly p.2) :
    ∀ y ∈ Run.visited step (start table head) run, y.requests = [] →
      ∀ lsn t, y.subscriber = some ⟨[], some lsn, some t⟩ → ∀ k, placedAt t k = placedAt y.table k := by
  intro y reached answered lsn t subscribed
  have followed : y.Followed := Run.invariant_under step (fun x step => x.Orderly step) run
    (followed_start table head) orderly (fun x step followed => followed_step followed step) y reached
  exact (followed.follows _ lsn subscribed rfl).converged answered

end Runs
/-! ### One document with a vector -/

section Examples

def vectorDoc : Entity :=
  { Entity.new "d" with representations := [⟨"at", .atomic, [], .dense [⟨0⟩], [], .clean, 0, ""⟩] }

/-- A subscriber takes its snapshot, and a statement inserts the document behind it. -/
def subscribedInsert (entry : Entry) : List NodeStep :=
  [.subscribe, .readLsn, .takeSnapshot, .arrive entry, .request 0 (.append vectorDoc),
    .request 0 .commit, .request 0 (.register .done), .request 0 .complete]

def broadcastInsert : List NodeStep :=
  subscribedInsert (.execute true) ++ [.request 0 .read, .request 0 .send, .deliver]

theorem broadcast_insert_orderly :
    ∀ p ∈ Run.taken step (start .new 0) broadcastInsert, p.1.Orderly p.2 := by
  simp only [broadcastInsert, subscribedInsert, List.cons_append, List.nil_append, Run.taken,
    List.forall_mem_cons]
  refine ⟨fun _ _ _ _ => trivial, fun _ _ _ _ => trivial, fun _ _ _ _ => trivial,
    fun _ _ _ _ => trivial, ?begins, fun _ _ _ _ _ _ => trivial, ?registers,
    fun _ _ _ _ _ _ => trivial, ?reads, fun _ _ _ _ _ _ => trivial, fun _ _ _ _ => trivial,
    List.forall_mem_nil _⟩
  case begins =>
    -- nothing has been logged when the INSERT begins
    intro s lsn _ _ r _ _ kd _
    refine ⟨fun u may => ?_, fun c waits => ?_⟩
    · obtain ⟨r', among, -, may⟩ := may
      rw [List.mem_singleton.mp among] at may
      rcases may.1 with logged | ⟨r', among, updates, phase, -⟩
      · exact absurd logged List.not_mem_nil
      · rw [List.mem_singleton.mp among] at phase
        cases phase
    · obtain ⟨r', among, listed⟩ := waits
      rw [List.mem_singleton.mp among] at listed
      exact absurd listed List.not_mem_nil
  case registers =>
    -- the update is above the snapshot and will be broadcast
    intro s lsn subscribed read r found updates logged c listed silent
    cases found
    cases logged
    cases subscribed
    cases read
    have above := (insertUpdates_bound listed).1
    rcases silent with tql | below
    · cases tql
    · exact absurd above (Nat.not_lt.mpr below)
  case reads =>
    intro s lsn _ _ r _ _ _ alone
    cases alone

/-- The subscriber is told of the document. -/
theorem broadcast_insert_converges :
    let y := broadcastInsert.foldl step (start .new 0)
    ∃ t, y.subscriber = some ⟨[], some 0, some t⟩ ∧ placedAt t ("d", 0) = placedAt y.table ("d", 0) :=
  ⟨_, rfl, subscriber_converges .new 0 broadcastInsert broadcast_insert_orderly _
    (Run.end_visited _ _ _) rfl 0 _ rfl _⟩

/-- Inserted through executeTql the document is in the node's table and not in the subscriber's. -/
theorem tql_insert_missed :
    ¬ ∀ (table : LocationTable) (head : Nat) (run : List NodeStep),
      ∀ y ∈ Run.visited step (start table head) run, y.requests = [] →
        ∀ lsn t, y.subscriber = some ⟨[], some lsn, some t⟩ →
          ∀ k, placedAt t k = placedAt y.table k := by
  intro all
  have same := all .new 0 (subscribedInsert .executeTql) _ (Run.end_visited _ _ _) rfl 0
    (.restore (LocationTable.new.snapshot 0)) rfl ("d", 0)
  revert same
  decide

end Examples
end LocationNode
end TronDB.Server
