import LivePanel.Main
import LivePanel.Window.Host
import LivePanel.Proofs.Window.Rows
import LivePanel.Proofs.Window.Status
import LivePanel.Proofs.Window.Failures
import LivePanel.Proofs.Window.Transports
import LivePanel.Proofs.Panel.Phases
import LivePanel.Proofs.Session.Updates
import LivePanel.Proofs.Session.Counts
import LivePanel.Proofs.Store.Repeats
import LivePanel.Proofs.Session.Failures
import LivePanel.Proofs.Session.Generations
import LivePanel.Proofs.Session.Typing
import LivePanel.Proofs.Session.Restoring
import LivePanel.Proofs.Session.Streams
import LivePanel.Proofs.Session.Acceptance
import LivePanel.Proofs.Session.Frames
import LivePanel.Proofs.Session.Echoes
import LivePanel.Proofs.Field.Integers
import LivePanel.Proofs.Wire.Messages
import LivePanel.Proofs.Transport.Traffic
import LivePanel.Proofs.Field.Registrations
import LivePanel.Proofs.Panel.Stages
import LivePanel.Proofs.Session.Keys
import LivePanel.Proofs.Store.Views
import LivePanel.Proofs.Store.Forms
import LivePanel.Proofs.Wire.Spellings
import LivePanel.Proofs.Session.Spellings
import LivePanel.Proofs.Panel.Precedence
