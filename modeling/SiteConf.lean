import SiteConf.Dialect.Apache
import SiteConf.Dialect.Demo
import SiteConf.Dialect.Nginx
import SiteConf.Main
import SiteConf.Proofs.BlockStructure
import SiteConf.Proofs.CommentLines
import SiteConf.Proofs.Idempotence
import SiteConf.Proofs.InheritanceRules
import SiteConf.Proofs.JsonRoundTrip
import SiteConf.Proofs.LineBlind
import SiteConf.Proofs.LineFidelity
import SiteConf.Proofs.MissingWriters
import SiteConf.Proofs.NginxDialect
import SiteConf.Proofs.Substitution
import SiteConf.Proofs.Walking
import SiteConf.Proofs.SegmentTables
import SiteConf.Proofs.Lexemes
import SiteConf.Proofs.Readings
import SiteConf.Proofs.Levels
import SiteConf.Proofs.Indentation
import SiteConf.Proofs.Overrides
import SiteConf.Proofs.Integers
import SiteConf.Proofs.BoundedRecursion
import SiteConf.Proofs.AtomicWriters
import SiteConf.Proofs.QuotedTexts
import SiteConf.Proofs.DescentCourse
import SiteConf.Proofs.WatchedResolver
