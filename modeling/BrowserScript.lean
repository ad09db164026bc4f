import BrowserScript.Command.ActionDocument
import BrowserScript.CommandLine.Main
import BrowserScript.CommandLine.Rehearsal
import BrowserScript.DevTools.Replies
import BrowserScript.Proofs.DevTools.Settling
import BrowserScript.Proofs.Dom.Brackets
import BrowserScript.Proofs.Html.Scanning
import BrowserScript.Proofs.Keyword.Import
import BrowserScript.Proofs.Keyword.Template
import BrowserScript.Proofs.Locator.Attached
import BrowserScript.Proofs.Locator.Literal
import BrowserScript.Proofs.Run.Polling
import BrowserScript.Proofs.Run.Verdicts
import BrowserScript.Proofs.Sandbox.Activation
import BrowserScript.Proofs.Sandbox.Choice
import BrowserScript.Proofs.Sandbox.Followers
import BrowserScript.Proofs.Sandbox.RadioGroup
import BrowserScript.Proofs.Sandbox.Transplant
import BrowserScript.Proofs.Script.ActionLine
import BrowserScript.Proofs.Script.BulletLine
import BrowserScript.Proofs.Script.Connective
import BrowserScript.Proofs.Script.Outline
import BrowserScript.Proofs.Script.RoundTrip
import BrowserScript.Proofs.Selector.Printed
import BrowserScript.Proofs.Session.Coverage
import BrowserScript.Proofs.Session.Interruption
import BrowserScript.Proofs.Session.Settlement
import BrowserScript.Proofs.Session.Subject
import BrowserScript.Proofs.Settings.Expansion
import BrowserScript.Proofs.Store.Refinement
import BrowserScript.Proofs.Verification.Agreement
import BrowserScript.Proofs.Verification.Calls
import BrowserScript.Proofs.XPath.Printed
import BrowserScript.Sandbox.Basic
import BrowserScript.Store.Shelf
