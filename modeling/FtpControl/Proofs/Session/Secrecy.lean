import FtpControl.Proofs.Channel.Framing
import FtpControl.Proofs.Session.Steps
import FtpControl.Proofs.Text.Decoding
import Mathlib.Data.List.Forall2

/-!
# Nothing is told of a password

What a session does on a line with a password does not depend on the password: not what it logs,
not what it asks of the storage, not what it replies, and not what it knows afterwards. So two
sessions whose clients sent different passwords cannot be told apart, except by what they were sent.
-/

namespace FtpControl

variable {σ κ : Type}

/-! ## Lines with a password -/

/-- A line within the limit whose first word is `PASS`, in any case, and whose other bytes are
secret; there is no line feed among them but at the end. -/
def IsPasswordLine (line : List UInt8) : Prop :=
  ∃ verb secret, Text.upper verb = "PASS" ∧ RawLine.lineFeed ∉ secret ∧
    line = Text.bytes verb ++ 0x20 :: secret ++ [RawLine.lineFeed] ∧ line.length ≤ RawLine.limit

namespace IsPasswordLine

variable {line : List UInt8}

theorem length_le (h : IsPasswordLine line) : line.length ≤ RawLine.limit := by
  obtain ⟨verb, secret, -, -, -, hlength⟩ := h
  exact hlength

/-- The line feed of such a line is its only one. -/
theorem exists_front (h : IsPasswordLine line) :
    ∃ front, RawLine.lineFeed ∉ front ∧ line = front ++ [RawLine.lineFeed] := by
  obtain ⟨verb, secret, hverb, hsecret, rfl, -⟩ := h
  have hfeed : '\n' ∉ verb.toList := Text.notMem_of_upper rfl hverb (by decide)
  have hbytes : RawLine.lineFeed ∉ Text.bytes verb := by
    rw [Text.bytes_eq_encode]
    exact Text.notMem_encode (a := '\n') (by decide) hfeed
  refine ⟨Text.bytes verb ++ 0x20 :: secret, ?_, rfl⟩
  rw [List.mem_append, List.mem_cons, not_or, not_or]
  exact ⟨hbytes, by decide, hsecret⟩

/-- The text of such a line begins with the word and a space, whatever its other bytes spell. -/
theorem exists_lineText (h : IsPasswordLine line) :
    ∃ verb back, Text.upper verb = "PASS" ∧
      (Channel.lineText line).toList = verb.toList ++ ' ' :: back := by
  obtain ⟨verb, secret, hverb, -, rfl, -⟩ := h
  have hascii : ∀ c ∈ verb.toList ++ [' '], c.toNat < 128 := by
    intro c hc
    rw [List.mem_append, List.mem_singleton] at hc
    rcases hc with hc | rfl
    · exact Text.ascii_of_upper hverb (by decide) c hc
    · decide
  have hword : Text.bytes verb ++ 0x20 :: secret ++ [RawLine.lineFeed] =
      Text.encode (verb.toList ++ [' ']) ++ (secret ++ [RawLine.lineFeed]) := by
    rw [Text.bytes_eq_encode, Text.encode_append]
    simp [Text.encode, String.utf8EncodeChar]
  refine ⟨verb, Text.trimChars (Text.decodeChars (secret ++ [RawLine.lineFeed])), hverb, ?_⟩
  rw [Channel.lineText, Text.trimLineEnd, Text.ofBytesLossy, hword,
    Text.decodeChars_encode_append hascii, String.toList_ofList, String.toList_ofList,
    List.append_assoc, List.singleton_append]
  exact Text.trimChars_append_cons (by decide) _ _

theorem masked_lineText (h : IsPasswordLine line) :
    Channel.masked (Channel.lineText line) = "PASS ****" := by
  obtain ⟨verb, back, hverb, htext⟩ := h.exists_lineText
  have hupper : verb.toList.map Char.toUpper = "PASS".toList := by
    rw [← Text.toList_upper, hverb]
  have hlength : verb.toList.length = 4 := by
    rw [← List.length_map (f := Char.toUpper), hupper]
    rfl
  have htake : (Channel.lineText line).toList.take 5 = verb.toList ++ [' '] := by
    rw [htext, List.take_append, hlength, List.take_of_length_le (by omega)]
    rfl
  rw [Channel.masked, htake, Text.upper, String.toList_ofList, List.map_append, hupper]
  rfl

theorem verb_ofLine (h : IsPasswordLine line) :
    (Command.ofLine (Channel.lineText line)).verb = "PASS" := by
  obtain ⟨verb, back, hverb, htext⟩ := h.exists_lineText
  have hspace : ' ' ∉ verb.toList := Text.notMem_of_upper rfl hverb (by decide)
  have hcut : Text.cut? ' ' (Text.trimLineEnd (Channel.lineText line)) =
      some (verb, .ofList (Text.trimChars back)) := by
    rw [Text.cut?, Text.trimLineEnd, htext, Text.trimChars_append_cons (by decide),
      String.toList_ofList, Text.cutChars_append_cons hspace]
    simp
  simp only [Command.ofLine, hcut]
  exact hverb

end IsPasswordLine

/-! ## Commands that are not understood -/

namespace Session

theorem perform_congr {host : Host σ κ} {c d : Command} {s : Session σ}
    (h : s.answerTo host c = s.answerTo host d) : s.perform host c = s.perform host d := by
  have hreply : s.reply host c = s.reply host d := by
    rw [reply_eq, reply_eq, answered, answered, h]
  rw [perform, perform, hreply]

/-- There is no verb for a password, so what is said about one makes no difference. -/
theorem perform_of_password (host : Host σ κ) {c d : Command} (hc : c.verb = "PASS")
    (hd : d.verb = "PASS") (s : Session σ) : s.perform host c = s.perform host d := by
  have hnone : ∀ enableHash, Verb.ofText enableHash "PASS" = .unknown := by decide
  apply perform_congr
  simp only [answerTo, Answer.toCommand, hc, hd, hnone]

/-! ## What is not received yet -/

theorem send_receiving (inlet : Inlet) (reply : Reply) (s : Session σ) :
    (s.receiving inlet).send reply = ((s.send reply).1, (s.send reply).2.receiving inlet) := by
  obtain ⟨profile, ⟨_, outlet, state⟩, ledger⟩ := s
  cases state with
  | closed => rfl
  | live via =>
      simp only [send, Channel.send, receiving]
      rcases outlet.send via (Text.bytes reply.render) with ⟨delivered, _ | _, outlet⟩ <;> rfl

theorem hangUp_receiving (host : Host σ κ) (inlet : Inlet) (s : Session σ) :
    (s.receiving inlet).hangUp host = (s.hangUp host).receiving inlet := by
  obtain ⟨profile, ⟨_, outlet, state⟩, ledger⟩ := s
  cases state with
  | closed => rfl
  | live via =>
      simp only [hangUp, log, receiving, Channel.shutdown]
      rcases outlet.shutdown via with ⟨_ | _, outlet⟩ <;> rfl

/-- What is received later makes no difference to a command that no handshake follows. -/
theorem perform_receiving {host : Host σ κ} {command : Command} {s : Session σ}
    (h : (s.perform host command).1 ≠ .securing) (inlet : Inlet) :
    (s.receiving inlet).perform host command =
      ((s.perform host command).1, (s.perform host command).2.receiving inlet) := by
  have hsend := send_receiving inlet (s.answerTo host command).reply (s.answered host command)
  rcases hout : (s.answered host command).send (s.answerTo host command).reply with
    ⟨failure | _, t⟩
  · rw [hout] at hsend
    rw [perform_of_error hout]
    exact perform_of_error hsend
  · rw [hout] at hsend
    rw [perform_of_ok hout] at h ⊢
    rw [perform_of_ok (s := s.receiving inlet) hsend]
    show (t.receiving inlet).follow host (s.answerTo host command).sequel = _
    cases hnext : (s.answerTo host command).sequel with
    | stay => rfl
    | hangUp => exact congrArg (Outcome.done, ·) (hangUp_receiving host inlet t)
    | secure =>
        rw [hnext] at h
        obtain ⟨profile, ⟨_, outlet, state⟩, ledger⟩ := t
        rcases state with (_ | _) | _
        · exact absurd rfl h
        · rfl
        · rfl

end Session

/-! ## Runs that receive different bytes -/

/-- Lines that differ at most in a password. -/
inductive Framed.Like : Framed → Framed → Prop where
  | same (item : Framed) : Like item item
  | password {p q} (hp : IsPasswordLine p) (hq : IsPasswordLine q) : Like (.line p) (.line q)

/-- The same is logged of lines that differ at most in a password. -/
theorem Framed.Like.masked_eq {p q : List UInt8} (h : Like (.line p) (.line q)) :
    Channel.masked (Channel.lineText p) = Channel.masked (Channel.lineText q) := by
  cases h with
  | same => rfl
  | password hp hq => rw [hp.masked_lineText, hq.masked_lineText]

/-- The same is done on lines that differ at most in a password. -/
theorem Framed.Like.perform_eq {p q : List UInt8} (h : Like (.line p) (.line q))
    (host : Host σ κ) (s : Session σ) :
    s.perform host (Command.ofLine (Channel.lineText p)) =
      s.perform host (Command.ofLine (Channel.lineText q)) := by
  cases h with
  | same => rfl
  | password hp hq => exact s.perform_of_password host hp.verb_ofLine hq.verb_ofLine

namespace Run

variable {host : Host σ κ}

/-- The run with other bytes to receive. -/
def receiving (inlet : Inlet) (r : Run σ) : Run σ :=
  { r with session := r.session.receiving inlet }

theorem settle_receiving (host : Host σ κ) (inlet : Inlet) (o : Outcome × Session σ) :
    settle host (o.1, o.2.receiving inlet) = (settle host o).receiving inlet :=
  settle_map (f := Session.receiving inlet) (fun _ => rfl) (fun _ _ _ => rfl) host o

theorem settle_of_securing {o : Outcome × Session σ} (h : o.1 = .securing) :
    settle host o = ⟨.securing, o.2⟩ := by
  obtain ⟨outcome, s⟩ := o
  obtain rfl : outcome = .securing := h
  rfl

theorem say_receiving (host : Host σ κ) (inlet : Inlet) (reply : Reply) (s : Session σ) :
    say host reply (s.receiving inlet) = (say host reply s).receiving inlet := by
  rw [say, say, Session.send_receiving]
  rcases s.send reply with ⟨_ | _, t⟩ <;> rfl

/-- What a run comes to is the same whether it receives its own bytes or other ones. -/
def Blind (host : Host σ κ) (r : Run σ) (inlet : Inlet) : Prop :=
  (r.advance host).receiving {} = ((r.receiving inlet).advance host).receiving {}

theorem Blind.of_step {r next : Run σ} {inlet rest : Inlet} (hstep : Step host r next)
    (hother : Step host (r.receiving inlet) (next.receiving rest))
    (h : next.Blind host rest) : r.Blind host inlet := by
  rw [Blind, advance_of_step (step_eq_some_iff.mpr hstep),
    advance_of_step (step_eq_some_iff.mpr hother)]
  exact h

theorem blind_of_stop {r : Run σ} {inlet : Inlet} (hstop : r.step host = none)
    (hother : (r.receiving inlet).step host = none) : r.Blind host inlet := by
  rw [Blind, advance_of_stop hstop, advance_of_stop hother]
  rfl

theorem blind_finish (result : Except Failure Unit) (s : Session σ) (inlet : Inlet) :
    (finish host result s).Blind host inlet := blind_of_stop rfl rfl

/-- A run that is over receives nothing more, so only one that still serves is to be looked at. -/
theorem GoesOn.blind {r : Run σ} {inlet other : Inlet} (hon : r.GoesOn .clear inlet)
    (h : ∀ s : Session σ, r = ⟨.serving, s⟩ → s.channel.state = .live .clear →
      s.channel.inlet = inlet → r.Blind host other) : r.Blind host other := by
  obtain ⟨phase, s⟩ := r
  rcases hon with ⟨result, hphase⟩ | ⟨hphase, hstate, hinlet⟩
  · obtain rfl : phase = .ended result := hphase
    exact blind_of_stop rfl rfl
  · obtain rfl : phase = .serving := hphase
    exact h s rfl hstate hinlet

/-- Steps on lines that differ at most in a password lead to runs that differ at most in what is
left to receive. -/
theorem step_receiving {s : Session σ} {p q : List UInt8} {rest rest' : Inlet} {j : Inlet}
    (hlike : Framed.Like (.line p) (.line q)) (hstate : s.channel.state = .live .clear)
    (hread : RawLine.read .clear j = .line q rest')
    (hclear : (settle host ((s.hearing p rest).perform host
      (Command.ofLine (Channel.lineText p)))).phase ≠ .securing) :
    Step host ⟨.serving, s.receiving j⟩
      ((settle host ((s.hearing p rest).perform host
        (Command.ofLine (Channel.lineText p)))).receiving rest') := by
  have hdone : ((s.hearing p rest).perform host (Command.ofLine (Channel.lineText p))).1 ≠
      .securing := by
    intro hsecuring
    rw [settle_of_securing hsecuring] at hclear
    exact hclear rfl
  have hsame : ((s.receiving j).hearing q rest').perform host
      (Command.ofLine (Channel.lineText q)) =
        (((s.hearing p rest).perform host (Command.ofLine (Channel.lineText p))).1,
          ((s.hearing p rest).perform host
            (Command.ofLine (Channel.lineText p))).2.receiving rest') := by
    rw [← Session.perform_receiving hdone, ← hlike.perform_eq]
    rw [Session.hearing, ← hlike.masked_eq]
    rfl
  rw [← settle_receiving, ← hsame]
  exact .line hstate hread

/-- A run in the clear comes to the same on lines that differ at most in passwords. -/
theorem blind_serving {i j : Inlet} {items others : List Framed} {e : Option StreamEnd}
    (hreads : RawLine.Reads .clear i items e) (hother : RawLine.Reads .clear j others e)
    (hlike : List.Forall₂ Framed.Like items others) {s : Session σ}
    (hstate : s.channel.state = .live .clear) (hinlet : s.channel.inlet = i)
    (hstay : StaysClear host ⟨.serving, s⟩) : Blind host ⟨.serving, s⟩ j := by
  induction hreads generalizing j others s with
  | @line i rest p items e hread _ ih =>
      subst hinlet
      have hstep : Step host ⟨.serving, s⟩ _ := .line hstate hread
      have hclear := hstay.next (step_eq_some_iff.mpr hstep)
      cases hlike with
      | cons hitem hitems =>
          -- A line is only like a line, so the other run reads one too.
          cases hother with
          | @line _ rest' q _ _ hread' hother =>
              apply Blind.of_step hstep (step_receiving hitem hstate hread' hclear.phase_ne)
              apply (hclear.goesOn_settle hstate).blind
              intro t ht hlive hrest
              rw [ht] at hclear ⊢
              exact ih hother hitems hlive hrest hclear
          | overlong => cases hitem
  | @overlong i rest items e hread _ ih =>
      subst hinlet
      have hstep : Step host ⟨.serving, s⟩ _ := .overlong hstate hread
      have hclear := hstay.next (step_eq_some_iff.mpr hstep)
      cases hlike with
      | cons hitem hitems =>
          cases hother with
          | line => cases hitem
          | @overlong _ rest' _ _ hread' hother =>
              have hstep' : Step host ⟨.serving, s.receiving j⟩
                  ((refuse host (s.receiving rest)).receiving rest') := by
                rw [refuse, ← say_receiving]
                exact .overlong hstate hread'
              apply Blind.of_step hstep hstep'
              apply (goesOn_refuse (s := s.receiving rest) hstate host).blind
              intro t ht hlive hrest
              rw [ht] at hclear ⊢
              exact ih hother hitems hlive hrest hclear
  | ended hread =>
      subst hinlet
      cases hlike with
      | nil =>
          cases hother with
          | ended hread' =>
              have hstep : Step host ⟨.serving, s⟩ _ := .ended hstate hread
              have hstep' : Step host ⟨.serving, s.receiving j⟩ _ := .ended hstate hread'
              exact .of_step hstep hstep' (blind_finish _ s j)
  | failed hread =>
      subst hinlet
      cases hlike with
      | nil =>
          cases hother with
          | failed hread' =>
              have hstep : Step host ⟨.serving, s⟩ _ := .failed hstate hread
              have hstep' : Step host ⟨.serving, s.receiving j⟩ _ := .failed hstate hread'
              exact .of_step hstep hstep' (blind_finish _ _ _)
  | waiting hread =>
      subst hinlet
      cases hlike with
      | nil =>
          cases hother with
          | waiting hread' =>
              have hstop : Stops host ⟨.serving, s⟩ := .waiting hstate hread
              have hstop' : Stops host ⟨.serving, s.receiving j⟩ := .waiting hstate hread'
              exact blind_of_stop (step_eq_none_iff.mpr hstop) (step_eq_none_iff.mpr hstop')

end Run

/-! ## Inputs with different passwords -/

/-- Inputs that differ at most in the passwords of some lines. -/
inductive SameButPasswords : List UInt8 → List UInt8 → Prop where
  | same (bytes : List UInt8) : SameButPasswords bytes bytes
  | line {front bs cs} (hfront : RawLine.lineFeed ∉ front) (h : SameButPasswords bs cs) :
      SameButPasswords (front ++ RawLine.lineFeed :: bs) (front ++ RawLine.lineFeed :: cs)
  | password {p q bs cs} (hp : IsPasswordLine p) (hq : IsPasswordLine q)
      (h : SameButPasswords bs cs) : SameButPasswords (p ++ bs) (q ++ cs)

theorem IsPasswordLine.ofFlow_append {p : List UInt8} (hp : IsPasswordLine p) (bs : List UInt8)
    (e : Option StreamEnd) : Framed.ofFlow (p ++ bs) e = .line p :: Framed.ofFlow bs e := by
  have hlength := hp.length_le
  obtain ⟨front, hfront, rfl⟩ := hp.exists_front
  rw [List.append_assoc, List.singleton_append, Framed.ofFlow_append_cons hfront, Framed.ofPiece,
    if_pos hlength]

theorem SameButPasswords.forall₂_ofFlow {bs cs : List UInt8} (h : SameButPasswords bs cs)
    (e : Option StreamEnd) :
    List.Forall₂ Framed.Like (Framed.ofFlow bs e) (Framed.ofFlow cs e) := by
  induction h with
  | same bytes => exact List.forall₂_same.mpr fun item _ => .same item
  | line hfront _ ih =>
      rw [Framed.ofFlow_append_cons hfront, Framed.ofFlow_append_cons hfront]
      exact .cons (.same _) ih
  | password hp hq _ ih =>
      rw [hp.ofFlow_append, hq.ofFlow_append]
      exact .cons (.password hp hq) ih

namespace Run

/-- A password changes nothing that can be observed: a session in the clear comes to the same
phase, the same knowledge of its client, the same channel, and the same ledger of what it asked,
wrote and logged, whatever passwords it is sent and however its input is cut into pieces. -/
theorem password_unobserved (host : Host σ κ) (s : Session σ)
    (hstate : s.channel.state = .live .clear) {inlet₁ inlet₂ : Inlet} {bytes₁ bytes₂ : List UInt8}
    {e : Option StreamEnd} (hflow₁ : inlet₁.flow .clear = (bytes₁, e))
    (hflow₂ : inlet₂.flow .clear = (bytes₂, e)) (hsame : SameButPasswords bytes₁ bytes₂)
    (hclear : StaysClear host ⟨.greeting, s.receiving inlet₁⟩) :
    (advance host ⟨.greeting, s.receiving inlet₁⟩).receiving {} =
      (advance host ⟨.greeting, s.receiving inlet₂⟩).receiving {} := by
  have hstep : Step host ⟨.greeting, s.receiving inlet₁⟩ _ := .greet _
  have hnext := hclear.next (step_eq_some_iff.mpr hstep)
  have hother : Step host ⟨.greeting, s.receiving inlet₂⟩
      ((greet host (s.receiving inlet₁)).receiving inlet₂) := by
    rw [greet, ← say_receiving]
    exact .greet (s.receiving inlet₂)
  show Blind host ⟨.greeting, s.receiving inlet₁⟩ inlet₂
  apply Blind.of_step hstep hother
  apply (goesOn_say (s := (s.receiving inlet₁).log .info _) hstate host _).blind
  intro t ht hlive hinlet
  have hgreet : greet host (s.receiving inlet₁) = ⟨.serving, t⟩ := ht
  rw [hgreet] at hnext
  rw [ht]
  exact blind_serving (RawLine.reads_of_flow hflow₁) (RawLine.reads_of_flow hflow₂)
    (hsame.forall₂_ofFlow e) hlive hinlet hnext

/-- One password is a word sent in two pieces, the other a byte that is no text. -/
theorem password_unobserved_lossy :
    let host := Host.bare (.error ⟨.tlsUnavailable, "no certificate configured"⟩)
    let s : Session MemoryStore := { channel := {}, ledger := { store := [] } }
    let inlet₁ : Inlet := ⟨[], [.bytes .clear (Text.bytes "pass sec"),
      .bytes .clear (Text.bytes "ret\r\nQUIT\r\n"), .finish true]⟩
    let inlet₂ : Inlet := ⟨Text.bytes "PASS " ++ [0xFF, RawLine.lineFeed],
      [.bytes .clear (Text.bytes "QUIT\r\n"), .finish true]⟩
    (advance host ⟨.greeting, s.receiving inlet₁⟩).receiving {} =
      (advance host ⟨.greeting, s.receiving inlet₂⟩).receiving {} := by
  intro host s inlet₁ inlet₂
  have htls : host.tls = .error ⟨.tlsUnavailable, "no certificate configured"⟩ := rfl
  have hp : IsPasswordLine (Text.bytes "pass secret\r\n") :=
    ⟨"pass", Text.bytes "secret\r", by decide, by decide, by decide, by decide⟩
  have hq : IsPasswordLine (Text.bytes "PASS " ++ [0xFF, RawLine.lineFeed]) :=
    ⟨"PASS", [0xFF], by decide, by decide, by decide, by decide⟩
  exact password_unobserved host s rfl (e := some .clean) (by decide) (by decide)
    (.password hp hq (.same (Text.bytes "QUIT\r\n")))
    (staysClear_of_tls htls nofun)

end Run

end FtpControl
