import FtpControl.Proofs.Channel.Sending
import FtpControl.Proofs.Session.Answers
import FtpControl.Proofs.Session.DigestRequests

/-!
# Answers do not read the journal

An answer to a command comes to the same on a ledger that stands behind other events, which stay in
front of what is added.
-/

namespace FtpControl

variable {σ κ : Type}

/-! ## Digests -/

namespace Digests

variable (before : Array Event) (host : Host σ κ) (a : HashAlgorithm) (l : Ledger σ)

theorem ofWhole_behind (path : String) :
    ofWhole host a path (l.behind before) =
      ((ofWhole host a path l).1, (ofWhole host a path l).2.behind before) := by
  rw [Request.ofWhole_eq, Request.ofWhole_eq, Request.find_behind]

theorem ofBounds_behind (param : String) :
    ofBounds host a param (l.behind before) =
      ((ofBounds host a param l).1, (ofBounds host a param l).2.behind before) := by
  rw [Request.ofBounds_eq, Request.ofBounds_eq, Request.find_behind]

end Digests

/-! ## Changes and reports -/

namespace SiteRequest

variable (before : Array Event) (host : Host σ κ) (l : Ledger σ)

theorem answer_behind (request : SiteRequest) :
    request.answer host (l.behind before) =
      ((request.answer host l).1, (request.answer host l).2.behind before) := by
  have hperform : request.perform host.storage (l.behind before) =
      ((request.perform host.storage l).1, (request.perform host.storage l).2.behind before) := by
    cases request <;> exact Ledger.ask_behind ..
  simp only [answer, hperform]
  rcases request.perform host.storage l with ⟨f | _, m⟩
  · simp only [Ledger.log_behind]
  · rfl

theorem respond_behind (param : String) :
    respond host param (l.behind before) =
      ((respond host param l).1, (respond host param l).2.behind before) := by
  unfold respond
  split
  · rfl
  · cases ofParam param with
    | error refusal => rfl
    | ok request => exact answer_behind before host l request

end SiteRequest

theorem Report.onPath_behind (before : Array Event) (st : Storage σ κ) (path : String)
    (l : Ledger σ) :
    onPath st path (l.behind before) =
      ((onPath st path l).1, (onPath st path l).2.behind before) := by
  simp only [onPath, Ledger.stat_behind]
  rcases l.stat st path with ⟨f | info, m⟩
  · rfl
  · simp only
    split
    · simp only [Ledger.readDir_behind]
      rcases m.readDir st path with ⟨f | entries, n⟩ <;> rfl
    · rfl

/-! ## Answers -/

namespace Answer

def behind (before : Array Event) (answer : Answer σ) : Answer σ :=
  { answer with ledger := answer.ledger.behind before }

variable {host : Host σ κ} {command : Command}

theorem toAuth_behind (before : Array Event) (host : Host σ κ) (secured : Bool)
    (profile : Profile) (l : Ledger σ) :
    toAuth host secured profile (l.behind before) =
      (toAuth host secured profile l).behind before := by
  unfold toAuth
  split
  · rfl
  · cases host.tls with
    | ok => rfl
    | error f => simp only [Ledger.log_behind, behind]

theorem toCommand_behind (before : Array Event) (host : Host σ κ) (command : Command)
    (secured : Bool) (profile : Profile) (l : Ledger σ) :
    toCommand host command secured profile (l.behind before) =
      (toCommand host command secured profile l).behind before := by
  rw [toCommand, toCommand]
  cases Verb.ofText host.settings.enableHash command.verb with
  | auth => exact toAuth_behind ..
  | opts =>
      simp only [toOption, behind]
      split
      · rw [Ledger.log_behind]
      · rfl
  | stat =>
      simp only [toStat]
      split
      · rfl
      · simp only [Report.onPath_behind]
        rfl
  | site =>
      simp only [SiteRequest.respond_behind]
      rfl
  | hash =>
      simp only [Digests.ofWhole_behind]
      rfl
  | legacy a =>
      simp only [Digests.ofBounds_behind]
      rfl
  | _ => rfl

/-- Whether a channel is under TLS makes a difference to one verb only. -/
theorem toCommand_of_ne (h : Text.upper command.verb ≠ "AUTH") (secured : Bool)
    (profile : Profile) (l : Ledger σ) :
    toCommand host command secured profile l = toCommand host command false profile l := by
  rw [Ne, ← Verb.ofText_eq_auth_iff host.settings.enableHash] at h
  rw [toCommand, toCommand]
  cases hverb : Verb.ofText host.settings.enableHash command.verb with
  | auth => exact absurd hverb h
  | _ => rfl

end Answer

end FtpControl
