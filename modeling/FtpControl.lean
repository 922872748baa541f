import FtpControl.ByteRange
import FtpControl.Command
import FtpControl.Digest.Engine
import FtpControl.Duration
import FtpControl.FileInfo.Reading
import FtpControl.IoFault
import FtpControl.Reply
import FtpControl.Settings
import FtpControl.Text.Lossy
import FtpControl.Storage.Checksum
import FtpControl.Storage.Memory
import FtpControl.Channel
import FtpControl.Session.Profile
import FtpControl.Session.Host
import FtpControl.Session.Choices
import FtpControl.Session.Features
import FtpControl.Session.Report
import FtpControl.Session.Digests
import FtpControl.Session.Site
import FtpControl.Session.Run
import FtpControl.FileTree.Walk
import FtpControl.FileTree.Access
import FtpControl.Storage.ServedDirectory
import FtpControl.Proofs.Text.Cutting
import FtpControl.Proofs.Channel.Flow
import FtpControl.Proofs.Channel.Framing
import FtpControl.Proofs.Session.Answers
import FtpControl.Proofs.Channel.Sending
import FtpControl.Proofs.Session.Course
import FtpControl.Proofs.Session.Dialogue
import FtpControl.Proofs.Channel.Provenance
import FtpControl.Proofs.Session.Upgrade
import FtpControl.Proofs.Session.Passage
import FtpControl.Proofs.Session.LifeCycle
import FtpControl.Proofs.Text.Encoding
import FtpControl.Proofs.Reply.Reading
import FtpControl.Proofs.Reply.Rendering
import FtpControl.Proofs.Reply.Integrity
import FtpControl.Proofs.Session.Replying
import FtpControl.Proofs.Storage.Reading
import FtpControl.Proofs.Storage.Journaling
import FtpControl.Proofs.Storage.Serving
import FtpControl.Proofs.Storage.RangeDigest
import FtpControl.Proofs.Storage.RangeCauses
import FtpControl.Proofs.Reply.DigestLines
import FtpControl.Proofs.Session.DigestRequests
import FtpControl.Proofs.Session.DigestReplies
import FtpControl.Proofs.FileTree.Walking
import FtpControl.Proofs.FileTree.Leading
import FtpControl.Proofs.FileTree.Changing
import FtpControl.Proofs.Storage.ServedPaths
import FtpControl.Proofs.Storage.Confining
import FtpControl.Proofs.Storage.Confinement
import FtpControl.Proofs.Session.Steps
import FtpControl.Proofs.Text.Decoding
import FtpControl.Proofs.Session.Secrecy
import FtpControl.Proofs.Session.Negotiation
import FtpControl.Proofs.Storage.Calls
import FtpControl.Proofs.Session.Restraint
import FtpControl.Proofs.Session.Cutoff
import FtpControl.Proofs.Channel.Receiving
import FtpControl.Proofs.Session.Journals
import FtpControl.Proofs.Session.Transparency
import FtpControl.Proofs.Storage.Creating
import FtpControl.Proofs.FileTree.Visiting
import FtpControl.Proofs.Storage.Verdicts
import FtpControl.Proofs.Storage.Unobserved
import FtpControl.Proofs.Reply.Sequence
import FtpControl.Proofs.Storage.RangeBounds
import FtpControl.Proofs.Storage.Lending
import FtpControl.Proofs.Session.Lending
import FtpControl.Proofs.Text.Numerals
import FtpControl.Proofs.Session.SiteGrammar
import FtpControl.Proofs.Storage.Failing
import FtpControl.Proofs.Storage.Linking
import FtpControl.Proofs.Storage.Permissions
import FtpControl.Proofs.Text.LetterCase
import FtpControl.Proofs.Channel.LetterCase
import FtpControl.Proofs.Channel.Handshakes
import FtpControl.Proofs.Channel.Endings
import FtpControl.Proofs.Session.Keywords
import FtpControl.Proofs.Session.LetterCase
import FtpControl.Proofs.Session.Verbatim
import FtpControl.Proofs.Text.Splitting
import FtpControl.Proofs.Storage.Resolving
import FtpControl.Proofs.Session.RangeArguments
import FtpControl.Proofs.Text.Ordering
import FtpControl.Proofs.FileTree.Rearranging
import FtpControl.Proofs.Storage.Listings
import FtpControl.Proofs.Session.Listings
import FtpControl.Proofs.Time.Calendar
import FtpControl.Proofs.Time.Moments
import FtpControl.Proofs.FileInfo.FactLines
import FtpControl.Proofs.Time.Durations
