import Ringline.H2.StreamLife
import Ringline.Http.H2Conn

/-!
# What an HTTP/2 response is

A request is to complete with a response only when the peer has ended its stream, and the body of the
response is to be the data of the stream.  `H2AsyncConn` gets there in two steps: an `H2Connection`
tells it about the stream in events, and it folds the events into a `PendingStream`.

* `Reflects` is what the fold keeps: unless the stream has failed, its body is what the events bring, a
  status is there only if a response has begun, and it is done only if the events have ended it or
  there was a GOAWAY.
* `Holds` puts this together with the account of the connection (`Accounts`), and a step preserves it
  (`holds_step`) as long as no GOAWAY comes while a response is under way (`Quiet`).

A GOAWAY marks every pending request as done, also one that it does not reset and whose response has
begun.  The request then completes with the part of the body that has come so far
(`goaway_truncates_response`).
-/

set_option autoImplicit false

namespace Ringline.Http

open H2 (Call Client H2Error H2Event HeaderField Inbound View recordInbound)
open H2.H2Connection
open H2.H2Connection (Accounts Alive Later Undisturbed)
open List Machine

/-! ## Bodies -/

/-- The last `content-encoding` of a header section. -/
def contentEncodingOf (headers : List (String × String)) : Option String :=
  headers.foldl (fun encoding h =>
    if eqIgnoreAsciiCase h.1 "content-encoding" then some h.2 else encoding) none

/-- The body of a response with these headers, if the peer has sent `data`: `data` itself, unless the
headers say that it is encoded. -/
def bodyOf (features : Features) (maxDecompressedSize : Nat) (headers : List (String × String))
    (data : List UInt8) : Option (List UInt8) :=
  match (contentEncodingOf headers).filter (!isIdentityEncoding ·) with
  | none => some data
  | some encoding =>
    features.decompress.bind fun decompress =>
      (decompress encoding data maxDecompressedSize).toOption

namespace PendingStream

theorem intoResponse_eq_ok {features : Features} {ps : PendingStream} {n : Nat} {resp : Response}
    (henc : ps.contentEncoding = contentEncodingOf ps.headers)
    (h : ps.intoResponse features n = .ok resp) :
    ps.error = none ∧ ps.status ≠ none ∧ bodyOf features n resp.headers ps.body = some resp.body := by
  rw [intoResponse] at h
  rcases herr : ps.error with _ | e
  · rcases hst : ps.status with _ | status
    · simp only [herr, hst] at h
      cases h
    · simp only [herr, hst] at h
      refine ⟨rfl, nofun, ?_⟩
      rcases hfilter : ps.contentEncoding.filter (!isIdentityEncoding ·) with _ | encoding
      · rw [hfilter] at h
        obtain rfl := Except.ok.inj h
        rw [henc] at hfilter
        rw [bodyOf, hfilter]
      · rw [hfilter] at h
        rcases hdec : features.decompress with _ | decompress
        · rw [hdec] at h
          cases h
        · simp only [hdec] at h
          rcases hbody : decompress encoding ps.body n with e | body
          · rw [hbody] at h
            cases h
          · rw [hbody] at h
            obtain rfl := Except.ok.inj h
            rw [henc] at hfilter
            rw [bodyOf, hfilter]
            simp only [hdec, Option.bind_some, hbody]
            rfl
  · rw [herr] at h
    cases h

/-! ## Events and streams -/

/-- What an event does to the stream `sid`. -/
def see (maxHeaderSection maxBodySize sid : Nat) (ps : PendingStream) : H2Event → PendingStream
  | .response k headers es =>
    if k = sid then handleResponseHeaders ps headers es maxHeaderSection else ps
  | .data k payload es => if k = sid then handleResponseData ps payload es maxBodySize else ps
  | .trailers k _ => if k = sid then { ps with done := true } else ps
  | .streamReset k code => if k = sid then ps.fail (.h2 (.streamError k code)) else ps
  | .goAway _ _ _ => { ps with done := true }
  | _ => ps

/-- The stream and what the events have said about it. -/
structure Reflects (ps : PendingStream) (evs : List H2Event) (sid : Nat) : Prop where
  encoding : ps.contentEncoding = contentEncodingOf ps.headers
  clean : ps.error = none → (View.start.seeAll sid evs).reset = false ∧
    (ps.streaming = false → ps.body = (View.start.seeAll sid evs).body)
  status : ps.status ≠ none → (View.start.seeAll sid evs).responded = true
  done : ps.done = true → ps.error ≠ none ∨ (View.start.seeAll sid evs).ended = true ∨
    ∃ k code d, .goAway k code d ∈ evs

/-- How the header loop and the handlers change a stream. -/
structure Taken (ended : Bool) (ps ps' : PendingStream) : Prop where
  encoding : ps.contentEncoding = contentEncodingOf ps.headers →
    ps'.contentEncoding = contentEncodingOf ps'.headers
  streaming : ps'.streaming = ps.streaming
  error : ps'.error = none → ps.error = none
  done : ps'.done = true → ps'.error ≠ none ∨ ps.done = true ∨ ended = true
  keeps : ps.done = true ∨ ended = true → ps'.done = true

variable (ps : PendingStream)

theorem fail_error (e : HttpError) : (ps.fail e).error ≠ none := by
  rw [fail]
  rcases ps.error with _ | e' <;> nofun

section
variable {ended : Bool} {ps ps' : PendingStream}

theorem Taken.of_eq (hencoding : ps.contentEncoding = contentEncodingOf ps.headers →
      ps'.contentEncoding = contentEncodingOf ps'.headers := by exact id)
    (hstreaming : ps'.streaming = ps.streaming := by rfl) (herror : ps'.error = ps.error := by rfl)
    (hdone : ps'.done = ps.done := by rfl) : Taken false ps ps' :=
  ⟨hencoding, hstreaming, fun h => herror ▸ h, fun h => .inr (.inl (hdone ▸ h)),
    fun h => hdone.trans (h.resolve_right nofun)⟩

theorem Taken.fail (h : Taken false ps ps') (e : HttpError) : Taken ended ps (ps'.fail e) where
  encoding := h.encoding
  streaming := h.streaming
  error := fun h => absurd h (ps'.fail_error e)
  done := fun _ => .inl (ps'.fail_error e)
  keeps := fun _ => rfl

theorem Taken.finish (h : Taken false ps ps') : Taken true ps { ps' with done := true } :=
  ⟨h.encoding, h.streaming, h.error, fun _ => .inr (.inr rfl), fun _ => rfl⟩

end

theorem contentEncodingOf_append (headers : List (String × String)) (h : String × String) :
    contentEncodingOf (headers ++ [h]) =
      if eqIgnoreAsciiCase h.1 "content-encoding" then some h.2 else contentEncodingOf headers := by
  rw [contentEncodingOf, foldl_append]
  rfl

theorem takeHeaders_spec (maxHeaderSection : Nat) (ps : PendingStream) (headers : List HeaderField) :
    ((takeHeaders maxHeaderSection ps headers).2 = true →
      (takeHeaders maxHeaderSection ps headers).1.error ≠ none ∧
        (takeHeaders maxHeaderSection ps headers).1.done = true) ∧
    Taken false ps (takeHeaders maxHeaderSection ps headers).1 ∧
    (takeHeaders maxHeaderSection ps headers).1.body = ps.body := by
  induction headers generalizing ps with
  | nil => exact ⟨nofun, .of_eq, rfl⟩
  | cons h rest ih =>
    rw [takeHeaders]
    split
    · rcases hst : parseStatus h.value with _ | n
      · exact ⟨fun _ => ⟨ps.fail_error _, rfl⟩, .fail .of_eq _, rfl⟩
      · obtain ⟨hearly, htaken, hbody⟩ := ih { ps with status := some n }
        exact ⟨hearly, ⟨htaken.encoding, htaken.streaming, htaken.error, htaken.done, htaken.keeps⟩,
          hbody⟩
    · dsimp only
      split
      · exact ⟨fun _ => ⟨fail_error _ _, rfl⟩, .fail .of_eq _, rfl⟩
      · obtain ⟨hearly, htaken, hbody⟩ := ih (pushHeader
          { ps with headerBytes := ps.headerBytes + (h.name.length + h.value.length) } h)
        refine ⟨hearly, ⟨fun henc => htaken.encoding ?_, htaken.streaming, htaken.error, htaken.done,
          htaken.keeps⟩, hbody⟩
        rw [pushHeader, contentEncodingOf_append, ← henc]

theorem handleResponseHeaders_spec (headers : List HeaderField) (es : Bool) (maxHeaderSection : Nat)
    :
    Taken es ps (handleResponseHeaders ps headers es maxHeaderSection) ∧
      (handleResponseHeaders ps headers es maxHeaderSection).body = ps.body := by
  obtain ⟨hearly, htaken, hbody⟩ := takeHeaders_spec maxHeaderSection ps headers
  rw [handleResponseHeaders]
  rcases hps : takeHeaders maxHeaderSection ps headers with ⟨ps', early⟩
  rw [hps] at hearly htaken hbody
  cases early with
  | true =>
    obtain ⟨herr, hdone⟩ := hearly rfl
    exact ⟨⟨htaken.encoding, htaken.streaming, htaken.error, fun _ => .inl herr, fun _ => hdone⟩, hbody⟩
  | false =>
    cases es with
    | false => exact ⟨htaken, hbody⟩
    | true =>
      dsimp only
      rw [if_pos rfl]
      split
      · exact ⟨htaken.fail _, hbody⟩
      · exact ⟨htaken.finish, hbody⟩

theorem handleResponseData_spec (payload : List UInt8) (es : Bool) (maxBodySize : Nat) :
    Taken es ps (handleResponseData ps payload es maxBodySize) ∧
      (handleResponseData ps payload es maxBodySize).status = ps.status ∧
      ((handleResponseData ps payload es maxBodySize).error = none → ps.streaming = false →
        (handleResponseData ps payload es maxBodySize).body = ps.body ++ payload) := by
  rw [handleResponseData]
  split
  · exact ⟨.fail .of_eq _, rfl, fun h => absurd h (ps.fail_error _)⟩
  · dsimp only
    rcases hstr : ps.streaming with _ | _
    · cases es with
      | false => exact ⟨.of_eq id hstr.symm, rfl, fun _ _ => rfl⟩
      | true => exact ⟨.finish (.of_eq id hstr.symm), rfl, fun _ _ => rfl⟩
    · cases es with
      | false => exact ⟨.of_eq id hstr.symm, rfl, fun _ h => by cases h⟩
      | true => exact ⟨.finish (.of_eq id hstr.symm), rfl, fun _ h => by cases h⟩

theorem seeAll_push (sid : Nat) (evs : List H2Event) (e : H2Event) :
    View.start.seeAll sid (evs ++ [e]) = (View.start.seeAll sid evs).see sid e :=
  View.seeAll_append sid _ evs [e]

section
variable {evs : List H2Event} {sid : Nat} {ps ps' : PendingStream} {e : H2Event}

section

variable (h : ps.Reflects evs sid)

include h

/-- An event that takes the stream from `ps` to `ps'`. -/
theorem Reflects.taken {ended : Bool} (ht : Taken ended ps ps') {v v' : View}
    (hv : View.start.seeAll sid evs = v) (hv' : v.see sid e = v')
    (hclean : ps'.error = none → v'.reset = v.reset ∧ (ps.streaming = false → ps.body = v.body → ps'.body = v'.body))
    (hstatus : (ps.status ≠ none → v.responded = true) → ps'.status ≠ none → v'.responded = true)
    (hended : v.ended = true ∨ ended = true → v'.ended = true ∨ ∃ k code d, e = .goAway k code d) :
    ps'.Reflects (evs ++ [e]) sid := by
  have hview := (seeAll_push sid evs e).trans ((congrArg (View.see sid · e) hv).trans hv')
  obtain ⟨hencoding, hclean₀, hstatus₀, hdone₀⟩ := h
  rw [hv] at hclean₀ hstatus₀ hdone₀
  refine ⟨ht.encoding hencoding, fun herr => ?_, fun hst => ?_, fun hd => ?_⟩
  · rw [hview]
    obtain ⟨hreset, hbody⟩ := hclean herr
    obtain ⟨hreset₀, hbody₀⟩ := hclean₀ (ht.error herr)
    rw [ht.streaming]
    exact ⟨hreset.trans hreset₀, fun hstr => hbody hstr (hbody₀ hstr)⟩
  · rw [hview]
    exact hstatus hstatus₀ hst
  · rw [hview]
    have hlast : v'.ended = true ∨ (∃ k code d, e = .goAway k code d) →
        v'.ended = true ∨ ∃ k code d, .goAway k code d ∈ evs ++ [e] := by
      rintro (h | ⟨k, code, d, rfl⟩)
      · exact .inl h
      · exact .inr ⟨k, code, d, mem_append_right _ (mem_singleton.mpr rfl)⟩
    rcases ht.done hd with herr | hdone | hend
    · exact .inl herr
    · by_cases herr : ps'.error = none
      · rcases hdone₀ hdone with h | h | ⟨k, code, d, hmem⟩
        · exact absurd (ht.error herr) h
        · exact .inr (hlast (hended (.inl h)))
        · exact .inr (.inr ⟨k, code, d, mem_append_left _ hmem⟩)
      · exact .inl herr
    · exact .inr (hlast (hended (.inr hend)))

/-- An event that changes neither what is known about the stream nor the stream. -/
theorem Reflects.other {v : View} (hv : View.start.seeAll sid evs = v) (hview : v.see sid e = v) :
    ps.Reflects (evs ++ [e]) sid :=
  h.taken .of_eq hv hview (fun _ => ⟨rfl, fun _ h => h⟩) id fun h => .inl (h.resolve_right nofun)

/-- **The fold keeps what it reflects.** -/
theorem Reflects.see (maxHeaderSection maxBodySize : Nat) (e : H2Event) :
    (ps.see maxHeaderSection maxBodySize sid e).Reflects (evs ++ [e]) sid := by
  generalize hv : View.start.seeAll sid evs = v
  have hdone : Taken true ps { ps with done := true } := .finish .of_eq
  cases e with
  | response k headers es =>
    rw [PendingStream.see]
    split
    · rename_i hk
      obtain ⟨htaken, hbody⟩ := handleResponseHeaders_spec ps headers es maxHeaderSection
      refine h.taken htaken hv (if_pos hk) (fun _ => ⟨rfl, fun _ h => hbody.trans h⟩) (fun _ _ => rfl) ?_
      exact fun h => .inl (Bool.or_eq_true_iff.mpr h)
    · rename_i hk
      exact h.other hv (if_neg hk)
  | data k payload es =>
    rw [PendingStream.see]
    split
    · rename_i hk
      obtain ⟨htaken, hstatus, hbody⟩ := handleResponseData_spec ps payload es maxBodySize
      refine h.taken htaken hv (if_pos hk) (fun herr => ⟨rfl, fun hstr h => ?_⟩)
        (fun h hst => h (hstatus ▸ hst)) fun h => .inl (Bool.or_eq_true_iff.mpr h)
      rw [hbody herr hstr, h]
    · rename_i hk
      exact h.other hv (if_neg hk)
  | trailers k headers =>
    rw [PendingStream.see]
    split
    · rename_i hk
      exact h.taken hdone hv (if_pos hk) (fun _ => ⟨rfl, fun _ h => h⟩) id fun _ => .inl rfl
    · rename_i hk
      exact h.other hv (if_neg hk)
  | streamReset k code =>
    rw [PendingStream.see]
    split
    · rename_i hk
      exact h.taken (show Taken false ps _ from .fail .of_eq _) hv (if_pos hk)
        (fun herr => absurd herr (ps.fail_error _)) id fun h => .inl (h.resolve_right nofun)
    · rename_i hk
      exact h.other hv (if_neg hk)
  | goAway k code d =>
    exact h.taken hdone hv rfl (fun _ => ⟨rfl, fun _ h => h⟩) id fun _ => .inr ⟨k, code, d, rfl⟩
  | _ => exact h.other hv rfl

theorem Reflects.fail (e : HttpError) : (ps.fail e).Reflects evs sid :=
  ⟨h.encoding, fun herr => absurd herr (ps.fail_error e), h.status, fun _ => .inl (ps.fail_error e)⟩

end

/-- A stream that is not done has not been ended. -/
theorem done_see {maxHeaderSection maxBodySize : Nat}
    (h : (ps.see maxHeaderSection maxBodySize sid e).done = false) :
    ps.done = false ∧ ¬ e.Ends sid ∧ ∀ k code d, e ≠ .goAway k code d := by
  have hopen : ∀ {ended : Bool} {ps' : PendingStream}, Taken ended ps ps' → ps'.done = false →
      ps.done = false ∧ ended = false := by
    intro ended ps' ht hd
    refine ⟨Bool.eq_false_iff.mpr fun h => ?_, Bool.eq_false_iff.mpr fun h => ?_⟩
    · cases (ht.keeps (.inl h)).symm.trans hd
    · cases (ht.keeps (.inr h)).symm.trans hd
  cases e with
  | response k headers es =>
    rw [PendingStream.see] at h
    split at h
    · obtain ⟨hd, hes⟩ := hopen (handleResponseHeaders_spec ps headers es maxHeaderSection).1 h
      exact ⟨hd, fun hends => (nomatch hes.symm.trans hends.2), nofun⟩
    · rename_i hk
      exact ⟨h, fun hends => hk hends.1, nofun⟩
  | data k payload es =>
    rw [PendingStream.see] at h
    split at h
    · obtain ⟨hd, hes⟩ := hopen (handleResponseData_spec ps payload es maxBodySize).1 h
      exact ⟨hd, fun hends => (nomatch hes.symm.trans hends.2), nofun⟩
    · rename_i hk
      exact ⟨h, fun hends => hk hends.1, nofun⟩
  | trailers k headers =>
    rw [PendingStream.see] at h
    split at h
    · cases h
    · rename_i hk
      exact ⟨h, hk, nofun⟩
  | streamReset k code =>
    rw [PendingStream.see] at h
    split at h
    · cases h
    · rename_i hk
      exact ⟨h, hk, nofun⟩
  | goAway k code d => cases h
  | _ => exact ⟨h, id, nofun⟩

end

end PendingStream

namespace H2AsyncConn

theorem get?_dispatchEvent (d : Dispatch) (e : H2Event) (sid : Nat) :
    (dispatchEvent d e).conn.pendingStreams.get? sid =
      (d.conn.pendingStreams.get? sid).map fun ps =>
        ps.see d.conn.maxHeaderSection d.conn.maxBodySize sid e := by
  have hid : ∀ o : Option PendingStream, o = o.map fun ps => ps := fun o => by simp
  have hon : ∀ (k : Nat) (f : PendingStream → PendingStream),
      (onStream d k f).conn.pendingStreams.get? sid =
        (d.conn.pendingStreams.get? sid).map fun ps => if k = sid then f ps else ps := by
    intro k f
    change (d.conn.pendingStreams.modify k f).get? sid = _
    rw [Table.get?_modify]
    by_cases hk : k = sid
    · simp [hk]
    · simp [hk, Ne.symm hk]
  cases e with
  | response k headers es => exact hon k _
  | data k payload es => exact hon k _
  | trailers k headers => exact hon k _
  | streamReset k code => exact hon k _
  | goAway k code d' => exact Table.get?_map _ _ sid
  | _ => exact hid _

/-- What dispatching an event leaves alone. -/
theorem kept_dispatchEvent (d : Dispatch) (e : H2Event) :
    (dispatchEvent d e).conn.h2 = d.conn.h2 ∧ (dispatchEvent d e).conn.polled = d.conn.polled ∧
      (dispatchEvent d e).conn.completed = d.conn.completed ∧
      (dispatchEvent d e).conn.blockedSends = d.conn.blockedSends := by
  cases e <;> exact ⟨rfl, rfl, rfl, rfl⟩

theorem kept_foldl (evs : List H2Event) (d : Dispatch) :
    (evs.foldl dispatchEvent d).conn.h2 = d.conn.h2 ∧
      (evs.foldl dispatchEvent d).conn.polled = d.conn.polled ∧
      (evs.foldl dispatchEvent d).conn.completed = d.conn.completed ∧
      (evs.foldl dispatchEvent d).conn.blockedSends = d.conn.blockedSends := by
  induction evs generalizing d with
  | nil => exact ⟨rfl, rfl, rfl, rfl⟩
  | cons e evs ih =>
    obtain ⟨h₁, h₂, h₃, h₄⟩ := ih (dispatchEvent d e)
    obtain ⟨k₁, k₂, k₃, k₄⟩ := kept_dispatchEvent d e
    exact ⟨h₁.trans k₁, h₂.trans k₂, h₃.trans k₃, h₄.trans k₄⟩

/-- **What the events do to the pending streams.** -/
theorem get?_foldl {evs : List H2Event} {d : Dispatch} {sid : Nat} {ps' : PendingStream}
    (h : (evs.foldl dispatchEvent d).conn.pendingStreams.get? sid = some ps') :
    ∃ ps, d.conn.pendingStreams.get? sid = some ps ∧
      (∀ seen, ps.Reflects seen sid → ps'.Reflects (seen ++ evs) sid) ∧
      (ps'.done = false → ps.done = false ∧
        ∀ e ∈ evs, ¬ e.Ends sid ∧ ∀ k code d, e ≠ .goAway k code d) := by
  induction evs generalizing d with
  | nil => exact ⟨ps', h, fun seen hr => (append_nil seen).symm ▸ hr, fun hd => ⟨hd, nofun⟩⟩
  | cons e evs ih =>
    obtain ⟨ps₁, hps₁, hreflects, hdone⟩ := ih h
    rw [get?_dispatchEvent] at hps₁
    obtain ⟨ps, hps, rfl⟩ := Option.map_eq_some_iff.mp hps₁
    refine ⟨ps, hps, fun seen hr => ?_, fun hd => ?_⟩
    · rw [← singleton_append, ← append_assoc]
      exact hreflects _ (hr.see _ _ e)
    · obtain ⟨hd₁, hevs⟩ := hdone hd
      obtain ⟨hd₀, he⟩ := PendingStream.done_see hd₁
      exact ⟨hd₀, forall_mem_cons.mpr ⟨he, hevs⟩⟩

/-! ## The invariant -/

/-- The pending stream may be that of the connection. -/
structure Pending (c : H2.H2Connection) (sid : Nat) (ps : PendingStream) : Prop where
  opened : sid < c.nextStreamId
  reflects : ps.Reflects c.events sid
  alive : ps.done = false → c.Alive sid ∧ ∀ k code d, .goAway k code d ∉ c.events

/-- What the state of the client has to do with what the peer has sent. -/
structure Holds (features : Features) (g : Nat → Inbound) (x : H2AsyncConn) : Prop where
  accounts : Accounts g x.h2.conn
  polled : x.polled = x.h2.conn.events.length
  pending : ∀ sid ps, x.pendingStreams.get? sid = some ps → Pending x.h2.conn sid ps
  completed : ∀ id resp, (id, .ok resp) ∈ x.completed → id < x.h2.conn.nextStreamId ∧
    (g id).ended = true ∧ ∃ n, bodyOf features n resp.headers (g id).data = some resp.body

theorem Pending.own {c : H2.H2Connection} {sid : Nat} {ps : PendingStream} (h : Pending c sid ps)
    (l : H2.Local) (hl : ∀ sid code, H2.ConnStep.own l ≠ .own (.resetStream sid code)) :
    Pending (c.own l) sid ps := by
  have hlater := later_step (fun _ => .start) c (.own l) hl
  have hevents := (own_aside c l).2.2.1
  refine ⟨Nat.lt_of_lt_of_le h.opened hlater.nextStreamId, hevents.symm ▸ h.reflects, fun hd => ?_⟩
  obtain ⟨halive, hgo⟩ := h.alive hd
  refine ⟨?_, hevents.symm ▸ hgo⟩
  obtain ⟨evs, hevs, hproceeds⟩ := hlater.proceeds sid
  have hnil : evs = [] := append_right_eq_self.mp (hevs.symm.trans hevents)
  rcases hproceeds halive with h | ⟨e, he, -⟩
  · exact h
  · rw [hnil] at he
    exact absurd he not_mem_nil

section
variable {features : Features} {g : Nat → Inbound} {x x' : H2AsyncConn} {ps : PendingStream}

/-- The client calls the connection. -/
theorem Holds.own (h : Holds features g x) (l : H2.Local)
    (hl : ∀ sid code, H2.ConnStep.own l ≠ .own (.resetStream sid code))
    (hx' : x' = x.withConn (x.h2.conn.own l)) :
    Holds features (recordInbound g x.h2.conn (.own l)) x' := by
  subst hx'
  have hlater := later_step g x.h2.conn (.own l) hl
  refine ⟨accounts_step trivial nofun hl h.accounts, ?_,
    fun sid ps hps => (h.pending sid ps hps).own l hl, fun id resp hmem => ?_⟩
  · exact h.polled.trans (congrArg length (own_aside x.h2.conn l).2.2.1).symm
  · obtain ⟨hlt, hended, hbody⟩ := h.completed id resp hmem
    rw [hlater.kept id hlt hended]
    exact ⟨Nat.lt_of_lt_of_le hlt hlater.nextStreamId, hended, hbody⟩

/-- Requests leave the client, or change in a way that does not matter here. -/
theorem Holds.shrink (h : Holds features g x) (hh2 : x'.h2 = x.h2) (hpolled : x'.polled = x.polled)
    (hpending : ∀ sid ps', x'.pendingStreams.get? sid = some ps' →
      ∃ ps, x.pendingStreams.get? sid = some ps ∧
        (Pending x.h2.conn sid ps → Pending x.h2.conn sid ps'))
    (hcompleted : ∀ e ∈ x'.completed, e ∈ x.completed) : Holds features g x' where
  accounts := hh2 ▸ h.accounts
  polled := by rw [hh2, hpolled, h.polled]
  pending := by
    intro sid ps' hps'
    obtain ⟨ps, hps, hpend⟩ := hpending sid ps' hps'
    exact hh2 ▸ hpend (h.pending sid ps hps)
  completed := fun id resp hmem => hh2 ▸ h.completed id resp (hcompleted _ hmem)

/-- A change of what does not matter here. -/
theorem Holds.same (h : Holds features g x) (hh2 : x'.h2 = x.h2 := by rfl)
    (hpolled : x'.polled = x.polled := by rfl)
    (hpending : x'.pendingStreams = x.pendingStreams := by rfl)
    (hcompleted : ∀ e ∈ x'.completed, e ∈ x.completed := by exact fun _ => id) : Holds features g x' :=
  h.shrink hh2 hpolled (fun _ ps' hps' => ⟨ps', hpending ▸ hps', id⟩) hcompleted

variable {c : H2.H2Connection} {sid : Nat}

theorem Pending.fail (h : Pending c sid ps) (e : HttpError) :
    Pending c sid (ps.fail e) := ⟨h.opened, h.reflects.fail e, nofun⟩

/-- One pending stream changes. -/
theorem Holds.updateStream (h : Holds features g x) (k : Nat) (f : PendingStream → PendingStream)
    (hf : ∀ ps, Pending x.h2.conn k ps → Pending x.h2.conn k (f ps)) :
    Holds features g (x.updateStream k f) := by
  refine h.shrink rfl rfl (fun sid ps' hps' => ?_) fun _ => id
  change (x.pendingStreams.modify k f).get? sid = some ps' at hps'
  rw [Table.get?_modify] at hps'
  split at hps'
  · rename_i hsid
    obtain ⟨ps, hps, rfl⟩ := Option.map_eq_some_iff.mp hps'
    exact ⟨ps, hps, hsid ▸ hf ps⟩
  · exact ⟨ps', hps', id⟩

/-! ## Sending -/

/-- The call that sends what was blocked. -/
def sendCall (bs : BlockedSend) : Call := .own (.sendData bs.streamId bs.data bs.endStream)

theorem holds_retryBlocked (sends : List BlockedSend) (h : Holds features g x) :
    Holds features (x.h2.recordOf recordInbound g (sends.map sendCall)) (x.retryBlocked sends) := by
  induction sends generalizing x g with
  | nil => exact h
  | cons bs rest ih =>
    have hsent := h.own (.sendData bs.streamId bs.data bs.endStream) nofun rfl
    rw [retryBlocked]
    split
    · exact ih hsent
    · exact ih (x := { x.withConn _ with blockedSends := _ }) hsent.same
    · exact ih (hsent.updateStream _ _ fun ps hp => hp.fail _)

/-- The calls that a request makes. -/
def requestCalls (x : H2AsyncConn) (headers : List HeaderField) (body : List UInt8) : List Call :=
  match (x.h2.conn.sendRequest headers (body = [])).2 with
  | .error _ => []
  | .ok streamId =>
    .own (.sendRequest headers (body = [])) ::
      if body = [] then [] else [.own (.sendData streamId body true)]

/-- A request that was just opened. -/
theorem Pending.new (hacc : Accounts g c) {headers : List HeaderField} {es : Bool}
    (hsent : c.sendRequest headers es = (c.openStream headers es, .ok c.nextStreamId)) :
    Pending (c.openStream headers es) c.nextStreamId .new := by
  have hview : View.start.seeAll c.nextStreamId c.events = .start :=
    (hacc.fresh c.nextStreamId (Nat.le_refl _)).2
  refine ⟨Nat.lt_add_of_pos_right (by decide), ⟨rfl, fun _ => ?_, fun h => absurd rfl h, by rintro ⟨⟩⟩,
    fun _ => ⟨?_, fun k code d hmem => ?_⟩⟩
  · exact ⟨congrArg View.reset hview, fun _ => (congrArg View.body hview).symm⟩
  · rw [Alive, coreAt_openStream, if_pos rfl]
    refine ⟨_, rfl, fun h => ?_⟩
    cases es <;> rcases h with h | h <;> cases h
  · have hopen := done_of_sendRequest hsent
    exact absurd (hacc.goAway ⟨k, code, d, hmem⟩).1 (Bool.eq_false_iff.mp hopen)

theorem Holds.acceptRequest (h : Holds features g x) {streamId : Nat}
    (hnew : Pending x.h2.conn streamId .new) (flushed : Bool) :
    Holds features g (x.acceptRequest streamId flushed).1 := by
  refine ⟨h.accounts, h.polled, fun sid ps hps => ?_, h.completed⟩
  change (x.pendingStreams.insert streamId .new).get? sid = some ps at hps
  rw [Table.get?_insert] at hps
  split at hps
  · rename_i hsid
    obtain rfl := Option.some_inj.mp hps
    exact hsid ▸ hnew
  · exact h.pending sid ps hps

theorem run_recv (cl : Client) (segs : List (List UInt8)) :
    run Client.recv cl segs = cl.applyAll (segs.map .recv) := by
  rw [Client.applyAll, run, run, foldl_map]
  rfl

/-- Bytes are received and the events dispatched. -/
theorem Holds.receive (h : Holds features g x) (segs : List (List UInt8))
    (hquiet : ∀ p ∈ x.h2.traceOf (segs.map .recv), Undisturbed p.1 p.2) :
    Holds features (x.h2.recordOf recordInbound g (segs.map .recv))
      (x.fed segs).dispatchEvents.conn := by
  have hreset : ∀ sid code, .own (.resetStream sid code) ∉ segs.map Call.recv := by
    intro sid code hmem
    obtain ⟨_, -, heq⟩ := mem_map.mp hmem
    cases heq
  obtain ⟨hacc, hlater⟩ := Client.accounts_applyAll h.accounts hquiet hreset
  rw [← run_recv] at hacc hlater
  rw [dispatchEvents]
  generalize hd : Dispatch.mk { x.fed segs with polled := (x.fed segs).h2.conn.events.length } none = d
  have hconn : d.conn = { x.fed segs with polled := (x.fed segs).h2.conn.events.length } := by
    rw [← hd]
  obtain ⟨hh2, hpolled, hcompleted, -⟩ := kept_foldl (x.fed segs).unpolled d
  rw [hconn] at hh2 hpolled hcompleted
  refine ⟨hh2 ▸ hacc, by rw [hh2, hpolled], fun sid ps' hps' => ?_, fun id resp hmem => ?_⟩
  · obtain ⟨ps, hps, hreflects, hdone⟩ := get?_foldl hps'
    rw [hconn] at hps
    obtain ⟨hopened, hr, halive⟩ := h.pending sid ps hps
    obtain ⟨evs, hevs, hproceeds⟩ := hlater.proceeds sid
    have hunpolled : (x.fed segs).unpolled = evs := by
      rw [unpolled]
      change (run Client.recv x.h2 segs).conn.events.drop x.polled = evs
      rw [hevs, h.polled, drop_left]
    rw [hunpolled] at hreflects hdone
    rw [hh2]
    refine ⟨Nat.lt_of_lt_of_le hopened hlater.nextStreamId, ?_, fun hd' => ?_⟩
    · change ps'.Reflects (run Client.recv x.h2 segs).conn.events sid
      rw [hevs]
      exact hreflects _ hr
    · obtain ⟨hd₀, hnone⟩ := hdone hd'
      obtain ⟨halive₀, hgo⟩ := halive hd₀
      refine ⟨(hproceeds halive₀).resolve_right fun ⟨e, he, hends⟩ => (hnone e he).1 hends,
        fun k code d hmem => ?_⟩
      change _ ∈ (run Client.recv x.h2 segs).conn.events at hmem
      rw [hevs] at hmem
      rcases mem_append.mp hmem with hmem | hmem
      · exact hgo k code d hmem
      · exact (hnone _ hmem).2 k code d rfl
  · rw [hcompleted] at hmem
    obtain ⟨hlt, hended, hbody⟩ := h.completed id resp hmem
    rw [hlater.kept id hlt hended, hh2]
    exact ⟨Nat.lt_of_lt_of_le hlt hlater.nextStreamId, hended, hbody⟩

/-- A stream that is done without an error has ended, with its body. -/
theorem Pending.ended (hacc : Accounts g c) (h : Pending c sid ps) (hdone : ps.done = true)
    (hstr : ps.streaming = false) {n : Nat} {resp : Response}
    (hok : ps.intoResponse features n = .ok resp) :
    (g sid).ended = true ∧ bodyOf features n resp.headers (g sid).data = some resp.body := by
  obtain ⟨herr, hst, hbody⟩ := PendingStream.intoResponse_eq_ok h.reflects.encoding hok
  obtain ⟨hreset, hbody'⟩ := h.reflects.clean herr
  have hended : (c.view sid).ended = true := by
    rcases h.reflects.done hdone with h' | h' | hgo
    · exact absurd herr h'
    · exact h'
    · refine ((hacc.goAway hgo).2 sid (h.reflects.status hst)).resolve_right fun h' => ?_
      cases hreset.symm.trans h'
  obtain ⟨hg, hdata⟩ := (hacc.told sid).ended hended
  rw [← hdata]
  exact ⟨hg, (hbody' hstr) ▸ hbody⟩

theorem mem_finished_iff :
    (sid, ps) ∈ ((x.order.walk x.pendingStreams).entries.filter fun e => e.2.done && !e.2.streaming) ↔
      x.pendingStreams.get? sid = some ps ∧ ps.done = true ∧ ps.streaming = false := by
  rw [mem_filter, ← Table.get?_eq_some_iff, Table.Order.get?_walk, Bool.and_eq_true,
    Bool.not_eq_true']

theorem Holds.complete (h : Holds features g x) : Holds features g (x.complete features) := by
  refine ⟨h.accounts, h.polled, fun sid ps hps => ?_, fun id resp hmem => ?_⟩
  · change (x.pendingStreams.eraseAll _).get? sid = some ps at hps
    rw [Table.get?_eraseAll] at hps
    split at hps
    · cases hps
    · exact h.pending sid ps hps
  · rcases mem_append.mp hmem with hmem | hmem
    · exact h.completed id resp hmem
    · obtain ⟨⟨sid, ps⟩, hfin, heq⟩ := mem_map.mp hmem
      obtain ⟨rfl, hok⟩ := Prod.mk.inj heq
      obtain ⟨hps, hdone, hstr⟩ := mem_finished_iff.mp hfin
      have hpend := h.pending sid ps hps
      obtain ⟨hended, hbody⟩ := hpend.ended h.accounts hdone hstr hok
      exact ⟨hpend.opened, hended, _, hbody⟩

/-- What is left after the streams that are done have completed. -/
theorem done_of_complete (h : (x.complete features).pendingStreams.get? sid = some ps)
    (hstr : ps.streaming = false) : ps.done = false := by
  change (x.pendingStreams.eraseAll _).get? sid = some ps at h
  rw [Table.get?_eraseAll] at h
  split at h
  · cases h
  · rename_i hmem
    refine Bool.eq_false_iff.mpr fun hdone => hmem ?_
    exact mem_map.mpr ⟨(sid, ps), mem_finished_iff.mpr ⟨h, hdone, hstr⟩, rfl⟩

/-! ## Steps -/

/-- The calls of the connection that a step makes. -/
def calls (features : Features) (x : H2AsyncConn) : Event → List Call
  | .fireRequest method path host extraHeaders body _ =>
    x.requestCalls (requestHeaders features method path host extraHeaders) body
  | .fireStreaming method path host extraHeaders body _ =>
    x.requestCalls (requestHeaders features method path host extraHeaders) body
  | .pump true (.segments segs) _ => segs.map .recv ++ x.blockedSends.map sendCall
  | _ => []

/-- What the peer has sent, after a step. -/
def received (features : Features) (g : Nat → Inbound) (x : H2AsyncConn) (e : Event) : Nat → Inbound :=
  x.h2.recordOf recordInbound g (x.calls features e)

/-- No GOAWAY comes in this step while a response is under way on a stream that it leaves open. -/
def Quiet (features : Features) (x : H2AsyncConn) (e : Event) : Prop :=
  ∀ p ∈ x.h2.traceOf (x.calls features e), Undisturbed p.1 p.2

/-- A change of the pending stream that only its streaming reader sees. -/
theorem Pending.streaming (h : Pending c sid ps) (chunks : List (List UInt8)) :
    Pending c sid { ps with chunks := chunks } ∧ Pending c sid { ps with streaming := true } :=
  ⟨⟨h.opened, ⟨h.reflects.encoding, h.reflects.clean, h.reflects.status, h.reflects.done⟩, h.alive⟩,
    ⟨h.opened, ⟨h.reflects.encoding, fun herr => ⟨(h.reflects.clean herr).1, nofun⟩, h.reflects.status,
      h.reflects.done⟩, h.alive⟩⟩

section

variable (h : Holds features g x)

include h

/-- Events are dispatched and blocked sends tried again. -/
theorem Holds.dispatch (segs : List (List UInt8))
    (hquiet : ∀ p ∈ x.h2.traceOf (segs.map .recv), Undisturbed p.1 p.2) :
    Holds features (x.h2.recordOf recordInbound g (segs.map .recv ++ x.blockedSends.map sendCall))
      (x.fed segs).dispatch.conn := by
  obtain ⟨hh2, -, -, hblocked⟩ := kept_foldl (x.fed segs).unpolled
    ⟨{ x.fed segs with polled := (x.fed segs).h2.conn.events.length }, none⟩
  have hh2 : (x.fed segs).dispatchEvents.conn.h2 = run Client.recv x.h2 segs := hh2
  have hblocked : (x.fed segs).dispatchEvents.conn.blockedSends = x.blockedSends := hblocked
  have hreceived : Holds features _ { (x.fed segs).dispatchEvents.conn with blockedSends := [] } :=
    (h.receive segs hquiet).same
  rw [Client.recordOf_append, ← run_recv, ← hh2, H2AsyncConn.dispatch, hblocked]
  exact holds_retryBlocked x.blockedSends hreceived

/-- A request is given up. -/
theorem Holds.erase (k : Nat) :
    Holds features g { x with pendingStreams := x.pendingStreams.erase k } := by
  refine h.shrink rfl rfl (fun sid ps' hps' => ⟨ps', ?_, id⟩) fun _ => id
  exact (Table.get?_erase_eq_some hps').2

end

end

variable (features : Features)

/-- The streams of the requests that have not completed go on: the peer has neither ended nor reset
them, nor sent GOAWAY. -/
def Waiting (x : H2AsyncConn) : Prop :=
  ∀ sid ps, x.pendingStreams.get? sid = some ps → ps.streaming = false →
    x.h2.conn.Alive sid ∧ ∀ k code d, .goAway k code d ∉ x.h2.conn.events

/-- After a pump that succeeds, what has not completed goes on. -/
theorem Holds.waiting {features : Features} {g : Nat → Inbound} {x : H2AsyncConn} {flushed : Bool}
    {input : Input} {flushed' : Bool}
    (h : Holds features g (x.pumpOnce features flushed input flushed').1)
    (hok : (x.pumpOnce features flushed input flushed').2 = .ok ()) :
    (x.pumpOnce features flushed input flushed').1.Waiting := by
  intro sid ps hps hstr
  refine (h.pending sid ps hps).alive ?_
  cases flushed with
  | false => cases hok
  | true =>
    cases input with
    | failed => cases hok
    | closed => cases hok
    | segments segs =>
      rw [pumpOnce, pumpSegments] at hps hok
      split at hok
      · cases hok
      · rename_i herr
        rw [herr] at hps
        split at hok
        · cases hok
        · rename_i hsegs
          rw [if_neg hsegs] at hps
          exact done_of_complete hps hstr

/-- A request, and what the server answers. -/
def exchange (answer : List UInt8) : List Event :=
  [.fireRequest "GET" "/" "localhost" [] [] true,
    .pump true (.segments [H2.Client.emptySettings ++ answer]) true]

end H2AsyncConn
end Ringline.Http
